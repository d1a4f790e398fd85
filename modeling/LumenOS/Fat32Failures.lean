import LumenOS.Fat32Matches
import LumenOS.Fat32ReadBounds

/-!
# A sector primitive that may fail

Each call delivers the sectors or fails and leaves the buffer as it was, in any
pattern; the functions of `fat32.c` never look at the code it returns. What they
report is right as long as every buffer they use holds what was asked for: then
they do what they do over a primitive that delivers.
-/

namespace LumenOS.Fat32Failures

open LumenOS.ByteMemory LumenOS.StringModel LumenOS.Fat32Model LumenOS.Fat32Delivery
open LumenOS.Fat32Layout LumenOS.Fat32Slice LumenOS.Fat32Trace LumenOS.Fat32Rounds
open LumenOS.Fat32ReadBounds LumenOS.Fat32Volume LumenOS.Fat32Records LumenOS.Fat32Matches

set_option autoImplicit false

/-- Memories with the same byte at every address. Behind the addresses a
primitive may count its calls or keep whatever decides the next failure. -/
def SameBytes (left right : Memory) : Prop :=
  ∀ address, readByte left address = readByte right address

/-- Every call delivers and returns 0, or returns -1 and touches nothing. -/
def Fallible (disk : Nat → Byte) (diskRead : DiskRead) : Prop :=
  ∀ lba count buf memory,
    ((diskRead lba count buf memory).1 = 0 ∧
      SameBytes (diskRead lba count buf memory).2
        (deliverSectors disk lba count buf memory).2) ∨
    ((diskRead lba count buf memory).1 = -1 ∧
      SameBytes (diskRead lba count buf memory).2 memory)

def Holds (disk : Nat → Byte) : Event → Prop
  | .load lba count buf after =>
      readBytes after buf (count * 512) = window disk (lba * 512) (count * 512)
  | _ => True

def Event.Visible : Event → Prop
  | .copy _ _ _ _ => True
  | .choose _ => True
  | _ => False

/-- Whatever is loaded before something is handed out is what was asked for. -/
def Trusted (disk : Nat → Byte) (events : List Event) : Prop :=
  ∀ before event after, events = before ++ event :: after → Event.Visible event →
    ∀ load ∈ before, Holds disk load

section Failing

variable {disk : Nat → Byte} {diskRead : DiskRead}

theorem deliver_fallible (disk : Nat → Byte) : Fallible disk (deliverSectors disk) :=
  fun _ _ _ _ => Or.inl ⟨rfl, fun _ => rfl⟩

theorem fallible_outside (fallible : Fallible disk diskRead) (lba count buf address : Nat)
    (memory : Memory) (outside : ∀ i, i < count * 512 → u32 address ≠ u32 (buf + i)) :
    readByte (diskRead lba count buf memory).2 address = readByte memory address := by
  rcases fallible lba count buf memory with ⟨_, delivered⟩ | ⟨_, failed⟩
  · rw [delivered address]
    exact deliver_outside disk lba count buf address memory outside
  · exact failed address

theorem trusted_tail {event : Event} {events : List Event}
    (trusted : Trusted disk (event :: events)) : Trusted disk events := by
  intro before other after split visible load member
  apply trusted (event :: before) other after
  · rw [split]
    rfl
  · exact visible
  · exact List.mem_cons_of_mem event member

theorem trusted_behind {front events : List Event} (trusted : Trusted disk (front ++ events)) :
    Trusted disk events := by
  induction front with
  | nil => exact trusted
  | cons event front ih => exact ih (trusted_tail trusted)

theorem trusted_holds {front events : List Event} (trusted : Trusted disk (front ++ events))
    (visible : ∃ event ∈ events, Event.Visible event) : ∀ load ∈ front, Holds disk load := by
  obtain ⟨event, member, seen⟩ := visible
  obtain ⟨before, after, rfl⟩ := List.append_of_mem member
  intro load loaded
  apply trusted (front ++ before) event after
  · rw [List.append_assoc]
  · exact seen
  · exact List.mem_append_left before loaded

theorem trusted_head {load : Event} {events : List Event} (trusted : Trusted disk (load :: events))
    (visible : ∃ event ∈ events, Event.Visible event) : Holds disk load :=
  @trusted_holds disk [load] events trusted visible load List.mem_cons_self

theorem held_byte {after : Memory} {buf start count : Nat}
    (held : readBytes after buf count = window disk start count) {i : Nat} (inside : i < count) :
    readByte after (buf + i) = disk (start + i) := by
  have read := read_bytes_get after buf count i inside
  rw [held, window_get disk start count i inside] at read
  exact (Option.some.inj read).symm

theorem link_held (fs : Fs) (sector cluster : Nat) (memory : Memory)
    (held : ∀ load ∈ fatNextEvents diskRead fs sector cluster memory, Holds disk load) :
    (fatNext diskRead fs sector cluster memory).1 = diskLink disk fs cluster := by
  have loaded := held _ (List.mem_cons_of_mem _ List.mem_cons_self)
  have inside := link_offset cluster
  unfold fatNext diskLink
  dsimp only
  congr 1
  unfold load32
  rw [read_bytes_window]
  apply congrArg decodeLE
  apply window_congr
  intro i bound
  rw [Nat.zero_add, Nat.add_assoc, Nat.add_assoc]
  exact held_byte loaded (show u32 (cluster * 4) % 512 + i < 1 * 512 by omega)

theorem skip_held (fs : Fs) (sector skip cl : Nat) (memory : Memory)
    (held : ∀ load ∈ (skipClustersLogged diskRead fs sector skip cl memory).1, Holds disk load) :
    (skipClustersLogged diskRead fs sector skip cl memory).2.1 = follow disk fs cl skip := by
  induction skip generalizing cl memory with
  | zero => rfl
  | succ skip ih =>
      rw [skipClustersLogged] at held ⊢
      dsimp only at held ⊢
      have first := link_held fs sector cl memory fun load member =>
        held load (List.mem_append_left _ member)
      have later := ih (fatNext diskRead fs sector cl memory).1
        (fatNext diskRead fs sector cl memory).2 fun load member =>
          held load (List.mem_append_right _ member)
      rw [later, first]
      rfl

end Failing

def Data (cluster : Nat) : Prop := 2 ≤ cluster ∧ cluster < badCluster

theorem data_below {cluster : Nat} (data : Data cluster) : cluster < fatEoc :=
  Nat.lt_succ_of_lt data.2

section Paths

variable (disk : Nat → Byte) (fs : Fs)

/-- Data clusters along the links, as far as they are listed. -/
def DataPath : Nat → List Nat → Prop
  | _, [] => True
  | first, cluster :: clusters => first = cluster ∧ Data cluster ∧
      DataPath (tableLink disk fs cluster) clusters

/-- The byte of a file at a position: it is before the file's end and stands at
the position in what data clusters along the links hold. -/
structure FileByte (file : File) (position : Nat) (byte : Byte) : Prop where
  inside : position < file.size
  stored : ∃ clusters, DataPath disk fs file.firstCluster clusters ∧
    (dataContent disk fs clusters)[position]? = some byte

/-- A record of the directory: one of those that data clusters along the links
hold. -/
def InDirectory (dir : File) (found : Record) : Prop :=
  ∃ clusters, DataPath disk fs dir.firstCluster clusters ∧ found ∈ dataRecords disk fs clusters

variable {disk fs}

theorem path_of_data {count first : Nat}
    (data : ∀ h, h < count → Data (follow disk fs first h)) :
    DataPath disk fs first ((List.range count).map (follow disk fs first)) := by
  induction count generalizing first with
  | zero => trivial
  | succ count ih =>
      have here : Data first := data 0 (Nat.succ_pos count)
      rw [List.range_succ_eq_map, List.map_cons, List.map_map]
      refine ⟨rfl, here, ?_⟩
      change DataPath disk fs (tableLink disk fs first) _
      rw [← disk_link_table (data_below here)]
      apply ih
      intro h bound
      rw [← follow_succ]
      exact data (h + 1) (Nat.succ_lt_succ bound)

theorem path_clusters {first : Nat} {clusters : List Nat}
    (path : DataPath disk fs first clusters) :
    ∀ cluster ∈ clusters, 2 ≤ cluster ∧ cluster < fatEoc := by
  induction clusters generalizing first with
  | nil => exact List.forall_mem_nil _
  | cons cluster clusters ih =>
      obtain ⟨_, data, rest⟩ := path
      exact List.forall_mem_cons.mpr ⟨⟨data.1, data_below data⟩, ih rest⟩

theorem path_byte {first index column : Nat} (inside : column < fs.sectorsPerCluster * 512)
    (data : ∀ h, h ≤ index → Data (follow disk fs first h)) :
    ∃ clusters, DataPath disk fs first clusters ∧
      (dataContent disk fs clusters)[index * (fs.sectorsPerCluster * 512) + column]? =
        some (disk (clusterToLba fs (follow disk fs first index) * 512 + column)) := by
  have last := data index (Nat.le_refl index)
  refine ⟨(List.range (index + 1)).map (follow disk fs first),
    path_of_data fun h bound => data h (Nat.le_of_lt_succ bound), ?_⟩
  rw [data_content_get inside, List.getElem?_map, List.getElem?_range (Nat.lt_succ_self index),
    cluster_to_lba_sector last.1 (data_below last)]
  rfl

end Paths

section Reading

variable {disk : Nat → Byte} {diskRead : DiskRead} {fs : Fs} (sector buf : Nat)

/-- The byte at a position of the linked clusters, no end mark up to there. -/
structure StoredAt (disk : Nat → Byte) (fs : Fs) (cl position : Nat) (byte : Byte) : Prop where
  below : ∀ h, h ≤ position / fs.bytesPerCluster → follow disk fs cl h < fatEoc
  stored : byte = disk (clusterToLba fs (follow disk fs cl (position / fs.bytesPerCluster)) * 512 +
    position % fs.bytesPerCluster)

theorem stored_here {cl position : Nat} {byte : Byte} (data : cl < fatEoc)
    (inside : position < fs.bytesPerCluster)
    (stored : byte = disk (clusterToLba fs cl * 512 + position)) :
    StoredAt disk fs cl position byte := by
  have quotient : position / fs.bytesPerCluster = 0 := Nat.div_eq_of_lt inside
  constructor
  · intro h upTo
    rw [quotient] at upTo
    obtain rfl : h = 0 := Nat.le_zero.mp upTo
    exact data
  · rw [quotient, Nat.mod_eq_of_lt inside]
    exact stored

theorem stored_behind (whole : 0 < fs.bytesPerCluster) {cl position : Nat} {byte : Byte}
    (data : cl < fatEoc) (later : StoredAt disk fs (diskLink disk fs cl) position byte) :
    StoredAt disk fs cl (fs.bytesPerCluster + position) byte := by
  have quotient : (fs.bytesPerCluster + position) / fs.bytesPerCluster =
      position / fs.bytesPerCluster + 1 := by
    rw [Nat.add_comm, Nat.add_div_right _ whole]
  have rest : (fs.bytesPerCluster + position) % fs.bytesPerCluster =
      position % fs.bytesPerCluster := Nat.add_mod_left _ _
  constructor
  · rw [quotient]
    exact (below_succ_iff cl _).mpr ⟨data, later.below⟩
  · rw [quotient, rest, follow_succ]
    exact later.stored

theorem fat_next_frame (fallible : Fallible disk diskRead) (cluster address : Nat)
    (memory : Memory) (outside : Outside address sector 512) :
    readByte (fatNext diskRead fs sector cluster memory).2 address = readByte memory address := by
  apply fallible_outside fallible
  intro i bound
  exact outside i (by omega)

theorem copied_visible {fuel cl off dst remaining left : Nat} {memory final : Memory}
    (ended : (readFromLogged diskRead fs sector buf fuel cl off dst remaining memory).2 =
      .ok (left, final)) (copied : left < remaining) :
    ∃ event ∈ (readFromLogged diskRead fs sector buf fuel cl off dst remaining memory).1,
      Event.Visible event := by
  cases fuel with
  | zero => cases ended
  | succ fuel =>
      rw [readFromLogged] at ended ⊢
      by_cases more : remaining ≠ 0 ∧ cl < fatEoc
      · rw [if_pos more]
        exact ⟨_, List.mem_cons_of_mem _ List.mem_cons_self, trivial⟩
      · rw [if_neg more] at ended
        obtain ⟨same, _⟩ := Prod.mk.inj (Except.ok.inj ended)
        omega

/-- So many bytes from `dst` on are those of the linked clusters, and outside
the buffers the memory is as before. -/
structure Arrives (disk : Nat → Byte) (fs : Fs) (sector buf cl off dst count : Nat)
    (memory final : Memory) : Prop where
  stored : ∀ i, i < count → StoredAt disk fs cl (off + i) (readByte final (dst + i))
  kept : ∀ address, Outside address sector 512 → Outside address buf 4096 →
    Outside address dst count → readByte final address = readByte memory address

/-- A round that copies from the cluster before the later rounds, which follow
the link of the cluster where they count anything. -/
theorem arrives_round {cl next off dst count later : Nat} {memory after final : Memory}
    (whole : 0 < fs.bytesPerCluster) (data : cl < fatEoc) (part : off + count ≤ fs.bytesPerCluster)
    (away : OffBuffers sector buf dst count) (word : count + later < 2 ^ 32)
    (copied : ∀ i, i < count →
      readByte after (dst + i) = disk (clusterToLba fs cl * 512 + (off + i)))
    (frame : ∀ address, Outside address sector 512 → Outside address buf 4096 →
      Outside address dst count → readByte after address = readByte memory address)
    (linked : 0 < later → off + count = fs.bytesPerCluster ∧ next = diskLink disk fs cl)
    (rest : Arrives disk fs sector buf next 0 (dst + count) later after final) :
    Arrives disk fs sector buf cl off dst (count + later) memory final := by
  constructor
  · intro i bound
    by_cases here : i < count
    · apply stored_here data (by omega)
      rw [rest.kept (dst + i) (fun j jBound => away.offSector i j here jBound)
        (fun j jBound => away.offBuf i j here jBound), copied i here]
      intro j jBound
      simp only [u32]
      omega
    · obtain ⟨full, same⟩ := linked (by omega)
      have behind := rest.stored (i - count) (by omega)
      have position : off + i = fs.bytesPerCluster + (i - count) := by omega
      have address : dst + i = dst + count + (i - count) := by omega
      rw [same, Nat.zero_add] at behind
      rw [position, address]
      exact stored_behind whole data behind
  · intro address offSector offBuf offDst
    rw [rest.kept address offSector offBuf, frame address offSector offBuf]
    · intro i bound
      exact offDst i (by omega)
    · intro i bound
      rw [Nat.add_assoc]
      exact offDst (count + i) (by omega)

/-- The bytes counted by a trusted copying loop are those of the linked clusters. -/
theorem read_from_trusted (fallible : Fallible disk diskRead) (small : SmallClusters fs)
    (fuel cl off dst remaining : Nat) (memory : Memory) (inside : off < fs.bytesPerCluster)
    (word : remaining < 2 ^ 32) (away : OffBuffers sector buf dst remaining)
    (trusted : Trusted disk
      (readFromLogged diskRead fs sector buf fuel cl off dst remaining memory).1)
    {left : Nat} {final : Memory}
    (ended : (readFromLogged diskRead fs sector buf fuel cl off dst remaining memory).2 =
      .ok (left, final)) :
    left ≤ remaining ∧ Arrives disk fs sector buf cl off dst (remaining - left) memory final := by
  induction fuel generalizing cl off dst remaining memory with
  | zero => cases ended
  | succ fuel ih =>
      by_cases more : remaining ≠ 0 ∧ cl < fatEoc
      · have bytes := small.bytes
        have limit := small.small
        obtain ⟨count, counted⟩ : ∃ count,
            count = min remaining (fs.sectorsPerCluster * 512 - off) := ⟨_, rfl⟩
        rw [readFromLogged, if_pos more] at trusted ended
        dsimp only at trusted ended
        rw [round_count small (by omega), ← counted] at trusted ended
        have held := trusted_head trusted ⟨_, List.mem_cons_self, trivial⟩
        have first : OffBuffers sector buf dst count := off_buffers_part away 0 count (by omega)
        obtain ⟨arrived, kept⟩ := copied_out sector buf held (show _ ≤ 4096 by omega)
          (show off + count ≤ _ by omega) first
        rw [window_slice _ _ _ _ _ (by omega)] at arrived
        have rest := trusted_tail (trusted_tail trusted)
        obtain ⟨fewer, later⟩ := ih _ 0 (dst + count) (remaining - count) _ (by omega)
          (by omega) (off_buffers_part away count (remaining - count) (by omega))
          (trusted_behind rest) ended
        have total : remaining - left = count + (remaining - count - left) := by omega
        rw [total]
        refine ⟨by omega, arrives_round sector buf small.whole more.2 (by omega) first (by omega)
          ?_ ?_ ?_ later⟩
        · intro i here
          rw [fat_next_frame sector fallible cl _ _ fun j jBound =>
            first.offSector i j here jBound, held_byte arrived here, Nat.add_assoc]
        · intro address offSector offBuf offDst
          rw [fat_next_frame sector fallible cl _ _ offSector, kept address offDst,
            fallible_outside fallible]
          intro i bound
          exact offBuf i (by omega)
        · intro counts
          exact ⟨by omega, link_held fs sector cl _ (trusted_holds rest
            (copied_visible sector buf ended (by omega)))⟩
      · rw [readFromLogged, if_neg more] at ended
        obtain ⟨same, memories⟩ := Prod.mk.inj (Except.ok.inj ended)
        subst same memories
        refine ⟨Nat.le_refl _, ?_, fun _ _ _ _ => rfl⟩
        intro i bound
        omega

/-- Every cluster that the read can copy from is reached through data clusters. -/
def ReadsData (disk : Nat → Byte) (fs : Fs) (file : File) (offset size : Nat) : Prop :=
  ∀ i, offset / fs.bytesPerCluster ≤ i →
    i * fs.bytesPerCluster < offset + cutSize file offset size →
    (∀ h, offset / fs.bytesPerCluster ≤ h → h ≤ i → clusterAt disk fs file h < fatEoc) →
    ∀ h, h ≤ i → Data (clusterAt disk fs file h)

theorem file_byte_of_stored (small : SmallClusters fs) {file : File}
    {offset size i : Nat} {byte : Byte} (before : offset < file.size)
    (inside : ¬ Overruns disk fs file offset size)
    (reads : ReadsData disk fs file offset size) (bound : i < cutSize file offset size)
    (stored : StoredAt disk fs (clusterAt disk fs file (offset / fs.bytesPerCluster))
      (offset % fs.bytesPerCluster + i) byte) :
    FileByte disk fs file (offset + i) byte := by
  have whole := small.whole
  have place := Nat.div_add_mod' offset fs.bytesPerCluster
  have sum : offset + i =
      offset % fs.bytesPerCluster + i + offset / fs.bytesPerCluster * fs.bytesPerCluster := by
    omega
  have quotient : (offset + i) / fs.bytesPerCluster =
      (offset % fs.bytesPerCluster + i) / fs.bytesPerCluster + offset / fs.bytesPerCluster := by
    rw [sum, Nat.add_mul_div_right _ _ whole]
  have column : (offset + i) % fs.bytesPerCluster =
      (offset % fs.bytesPerCluster + i) % fs.bytesPerCluster := by
    rw [sum, Nat.add_mul_mod_self_right]
  have below : ∀ h, offset / fs.bytesPerCluster ≤ h → h ≤ (offset + i) / fs.bytesPerCluster →
      clusterAt disk fs file h < fatEoc := by
    rw [quotient, Nat.add_comm]
    exact (below_from_iff _ _ _).mp stored.below
  have order : offset / fs.bytesPerCluster ≤ (offset + i) / fs.bytesPerCluster :=
    Nat.div_le_div_right (Nat.le_add_right offset i)
  constructor
  · by_contra beyond
    apply inside
    by_cases wraps : 2 ^ 32 ≤ offset + size
    · refine ⟨before, wraps, ?_⟩
      intro h above upTo
      exact below h above
        (Nat.le_trans upTo (Nat.div_le_div_right (Nat.le_of_not_lt beyond)))
    · rw [cut_size_exact before (by omega)] at bound
      omega
  · have reached : clusterAt disk fs file ((offset + i) / fs.bytesPerCluster) =
        follow disk fs (clusterAt disk fs file (offset / fs.bytesPerCluster))
          ((offset % fs.bytesPerCluster + i) / fs.bytesPerCluster) := by
      unfold clusterAt
      rw [follow_add, quotient, Nat.add_comm]
    have under := Nat.div_mul_le_self (offset + i) fs.bytesPerCluster
    have data := reads ((offset + i) / fs.bytesPerCluster) order (by omega) below
    obtain ⟨clusters, path, held⟩ := @path_byte disk fs _ _ _
      (small.offset_inside (offset + i)) data
    rw [← small.bytes, Nat.div_add_mod'] at held
    refine ⟨clusters, path, held.trans (congrArg some ?_)⟩
    rw [column, stored.stored, ← reached]
    rfl

theorem read_trusted (fallible : Fallible disk diskRead) (small : SmallClusters fs)
    (fuel : Nat) (file : File) (offset size out : Nat) (memory : Memory)
    (fileWord : file.size < 2 ^ 32) (sizeWord : size < 2 ^ 32)
    (away : OffBuffers sector buf out size)
    (trusted : Trusted disk
      (fat32ReadLogged diskRead fs sector buf fuel file offset size out memory).1)
    (inside : ¬ Overruns disk fs file offset size) (reads : ReadsData disk fs file offset size)
    {result : Nat} {final : Memory}
    (ended : fat32Read diskRead fs sector buf fuel file offset size out memory =
      .ok (result, final)) :
    ∀ i, i < result → FileByte disk fs file (offset + i) (readByte final (out + i)) := by
  intro i bound
  by_cases before : offset < file.size
  · have whole := small.whole
    have fewer : cutSize file offset size ≤ size := by
      unfold cutSize u32
      split_ifs <;> omega
    rw [← fat32_read_logged] at ended
    unfold fat32ReadLogged at ended trusted
    rw [if_neg (Nat.not_le.mpr before)] at ended trusted
    dsimp only at ended trusted
    rw [if_neg (Nat.ne_of_gt whole)] at ended trusted
    dsimp only at ended trusted
    change Trusted disk (_ ++ (readFromLogged diskRead fs sector buf fuel _ _ out
      (cutSize file offset size) _).1) at trusted
    change (Except.map (fun counted => (cutSize file offset size - counted.1, counted.2))
      (readFromLogged diskRead fs sector buf fuel _ _ out (cutSize file offset size) _).2) =
        _ at ended
    cases copied : (readFromLogged diskRead fs sector buf fuel
        (skipClustersLogged diskRead fs sector (offset / fs.bytesPerCluster) file.firstCluster
          memory).2.1 (offset % fs.bytesPerCluster) out (cutSize file offset size)
        (skipClustersLogged diskRead fs sector (offset / fs.bytesPerCluster) file.firstCluster
          memory).2.2).2 with
    | error stop =>
        rw [copied] at ended
        cases ended
    | ok counted =>
        rw [copied] at ended
        obtain ⟨same, memories⟩ := Prod.mk.inj (Except.ok.inj ended)
        obtain ⟨_, arrives⟩ := read_from_trusted sector buf fallible small fuel _ _ out
          (cutSize file offset size) _ (Nat.mod_lt offset whole) (by omega)
          (off_buffers_part away 0 (cutSize file offset size) (by omega))
          (trusted_behind trusted) copied
        have skipped := skip_held fs sector _ _ _ (trusted_holds trusted
          (copied_visible sector buf copied (by omega)))
        have here := arrives.stored i (by omega)
        rw [skipped, memories] at here
        exact file_byte_of_stored small before inside reads (by omega) here
  · unfold fat32Read at ended
    rw [if_pos (Nat.le_of_not_lt before)] at ended
    obtain ⟨same, _⟩ := Prod.mk.inj (Except.ok.inj ended)
    omega

end Reading

section Searching

variable {disk : Nat → Byte} {diskRead : DiskRead} {fs : Fs} {name83 : List Byte}
variable (sector buf : Nat)

theorem chosen_visible {events : List Event} (chose : chosen events ≠ []) :
    ∃ event ∈ events, Event.Visible event := by
  obtain ⟨entry, others, listed⟩ := List.exists_cons_of_ne_nil chose
  have member : entry ∈ chosen events := by
    rw [listed]
    exact List.mem_cons_self
  obtain ⟨event, inside, same⟩ := List.mem_filterMap.mp member
  refine ⟨event, inside, ?_⟩
  cases event with
  | load lba count buf after => cases same
  | link cluster => cases same
  | look start => cases same
  | copy cluster off dst count => cases same
  | choose entry => trivial

/-- What the last round of a successful search does, and what every round before. -/
theorem find_round (short : name83.length = 11) {fuel cl : Nat} {memory : Memory}
    {file : File} {final : Memory}
    (ended : (findFromLogged diskRead fs sector buf name83 (fuel + 1) cl memory).2 =
      .ok (0, some file, final)) :
    cl < fatEoc ∧
      ((∃ found looks, meet name83 (fs.bytesPerCluster / 32)
          (readBytes (diskRead (clusterToLba fs cl) fs.sectorsPerCluster buf memory).2
            (buf + 32 * 0) (32 * (fs.bytesPerCluster / 32))) = .entry found ∧
          file = recordFile found ∧ chosen looks ≠ [] ∧
          (findFromLogged diskRead fs sector buf name83 (fuel + 1) cl memory).1 =
            loading diskRead (clusterToLba fs cl) fs.sectorsPerCluster buf memory :: looks) ∨
        ∃ next looks, meet name83 (fs.bytesPerCluster / 32)
          (readBytes (diskRead (clusterToLba fs cl) fs.sectorsPerCluster buf memory).2
            (buf + 32 * 0) (32 * (fs.bytesPerCluster / 32))) = .nothing ∧
          next = fatNext diskRead fs sector cl
            (diskRead (clusterToLba fs cl) fs.sectorsPerCluster buf memory).2 ∧
          (findFromLogged diskRead fs sector buf name83 fuel next.1 next.2).2 =
            .ok (0, some file, final) ∧
          (findFromLogged diskRead fs sector buf name83 (fuel + 1) cl memory).1 =
            loading diskRead (clusterToLba fs cl) fs.sectorsPerCluster buf memory :: looks ++
              fatNextEvents diskRead fs sector cl
                (diskRead (clusterToLba fs cl) fs.sectorsPerCluster buf memory).2 ++
              (findFromLogged diskRead fs sector buf name83 fuel next.1 next.2).1) := by
  rw [findFromLogged] at ended ⊢
  by_cases data : cl < fatEoc
  · rw [if_pos data] at ended ⊢
    refine ⟨data, ?_⟩
    dsimp only at ended ⊢
    have met := scan_logged_meets short
      (diskRead (clusterToLba fs cl) fs.sectorsPerCluster buf memory).2 buf
      (fs.bytesPerCluster / 32) 0
    cases meeting : meet name83 (fs.bytesPerCluster / 32)
        (readBytes (diskRead (clusterToLba fs cl) fs.sectorsPerCluster buf memory).2
          (buf + 32 * 0) (32 * (fs.bytesPerCluster / 32))) with
    | nothing =>
        rw [meeting] at met
        rw [met.2] at ended ⊢
        exact .inr ⟨_, _, rfl, rfl, ended, rfl⟩
    | endMark =>
        rw [meeting] at met
        rw [met.2] at ended
        cases ended
    | entry found =>
        rw [meeting] at met
        obtain ⟨dirent, one, scanned, _⟩ := met
        rw [scanned] at ended ⊢
        cases ended
        refine .inl ⟨found, _, rfl, rfl, ?_, rfl⟩
        rw [one]
        exact List.cons_ne_nil dirent []
  · rw [if_neg data] at ended
    cases ended

theorem found_visible (short : name83.length = 11) (fuel cl : Nat) (memory : Memory)
    {file : File} {final : Memory}
    (ended : (findFromLogged diskRead fs sector buf name83 fuel cl memory).2 =
      .ok (0, some file, final)) :
    ∃ event ∈ (findFromLogged diskRead fs sector buf name83 fuel cl memory).1,
      Event.Visible event := by
  induction fuel generalizing cl memory with
  | zero => cases ended
  | succ fuel ih =>
      rcases (find_round sector buf short ended).2 with
        ⟨found, looks, _, _, chose, events⟩ | ⟨next, looks, _, _, later, events⟩
      · obtain ⟨event, member, visible⟩ := chosen_visible chose
        rw [events]
        exact ⟨event, List.mem_cons_of_mem _ member, visible⟩
      · obtain ⟨event, member, visible⟩ := ih _ _ later
        rw [events]
        exact ⟨event, List.mem_append_right _ member, visible⟩

/-- A cluster that the search goes on behind: neither the name nor an end. -/
def Passed (disk : Nat → Byte) (fs : Fs) (name83 : List Byte) (cluster : Nat) : Prop :=
  cluster < fatEoc ∧
    meet name83 (fs.sectorsPerCluster * 16) (clusterBytes disk fs cluster) = .nothing

theorem held_entries (cl : Nat) (memory : Memory)
    (held : Holds disk (loading diskRead (clusterToLba fs cl) fs.sectorsPerCluster buf memory)) :
    readBytes (diskRead (clusterToLba fs cl) fs.sectorsPerCluster buf memory).2 (buf + 32 * 0)
      (32 * (fs.sectorsPerCluster * 16)) = clusterBytes disk fs cl := by
  have size : 32 * (fs.sectorsPerCluster * 16) = fs.sectorsPerCluster * 512 := by omega
  rw [size]
  exact held

theorem find_from_trusted (short : name83.length = 11) (small : SmallClusters fs)
    (fuel cl : Nat) (memory : Memory)
    (trusted : Trusted disk (findFromLogged diskRead fs sector buf name83 fuel cl memory).1)
    {file : File} {final : Memory}
    (ended : (findFromLogged diskRead fs sector buf name83 fuel cl memory).2 =
      .ok (0, some file, final)) :
    ∃ i found, (∀ h, h < i → Passed disk fs name83 (follow disk fs cl h)) ∧
      follow disk fs cl i < fatEoc ∧
      meet name83 (fs.sectorsPerCluster * 16) (clusterBytes disk fs (follow disk fs cl i)) =
        .entry found ∧ file = recordFile found := by
  induction fuel generalizing cl memory with
  | zero => cases ended
  | succ fuel ih =>
      obtain ⟨data, round⟩ := find_round sector buf short ended
      rw [small.records] at round
      rcases round with
        ⟨found, looks, meeting, same, chose, events⟩ | ⟨next, looks, meeting, rfl, later, events⟩
      · rw [events] at trusted
        have held := trusted_head trusted (chosen_visible chose)
        rw [held_entries buf cl memory held] at meeting
        exact ⟨0, found, fun h early => absurd early (Nat.not_lt_zero h), data, meeting, same⟩
      · rw [events] at trusted
        have held := trusted_holds trusted (found_visible sector buf short fuel _ _ later)
        rw [held_entries buf cl memory (held _ List.mem_cons_self)] at meeting
        have linked := link_held fs sector cl _ fun load member =>
          held load (List.mem_append_right _ member)
        obtain ⟨i, found, passed, below, here, same⟩ := ih _ _ (trusted_behind trusted) later
        rw [linked] at passed below here
        refine ⟨i + 1, found, ?_, below, here, same⟩
        intro h bound
        cases h with
        | zero => exact ⟨data, meeting⟩
        | succ h => exact passed h (by omega)

/-- Every cluster that the search looks into is one of data. -/
def ScansData (disk : Nat → Byte) (fs : Fs) (dir : File) (name83 : List Byte) : Prop :=
  ∀ i, (∀ h, h < i → Passed disk fs name83 (clusterAt disk fs dir h)) →
    clusterAt disk fs dir i < fatEoc → Data (clusterAt disk fs dir i)

theorem meet_last (clusters : List Nat) (last : Nat) (found : Record)
    (passed : ∀ cluster ∈ clusters,
      meet name83 (fs.sectorsPerCluster * 16) (clusterBytes disk fs cluster) = .nothing)
    (met : meet name83 (fs.sectorsPerCluster * 16) (clusterBytes disk fs last) = .entry found) :
    meet name83 ((clusters ++ [last]).length * (fs.sectorsPerCluster * 16))
      (linkedContent disk fs (clusters ++ [last])) = .entry found := by
  induction clusters with
  | nil =>
      rw [List.nil_append, meet_clusters_cons, met]
  | cons cluster clusters ih =>
      rw [List.cons_append, meet_clusters_cons, passed cluster List.mem_cons_self]
      exact ih fun other member => passed other (List.mem_cons_of_mem cluster member)

theorem find_trusted (short : name83.length = 11) (small : SmallClusters fs) (fuel : Nat)
    (dir : File) (memory : Memory)
    (trusted : Trusted disk
      (fat32FindLogged diskRead fs sector buf fuel dir name83 memory).1)
    (scans : ScansData disk fs dir name83) {file : File} {final : Memory}
    (ended : fat32Find diskRead fs sector buf fuel dir name83 memory =
      .ok (0, some file, final)) :
    ∃ found, InDirectory disk fs dir found ∧ file = recordFile found := by
  rw [← fat32_find_logged] at ended
  obtain ⟨i, found, passed, below, met, same⟩ :=
    find_from_trusted sector buf short small fuel dir.firstCluster memory trusted ended
  have data : ∀ h, h < i + 1 → Data (clusterAt disk fs dir h) := by
    intro h bound
    by_cases last : h = i
    · subst last
      exact scans h passed below
    · exact scans h (fun other early => passed other (by omega)) (passed h (by omega)).1
  have path := path_of_data data
  refine ⟨found, ⟨_, path, ?_⟩, same⟩
  have whole := meet_last ((List.range i).map (clusterAt disk fs dir))
    (clusterAt disk fs dir i) found (by
      intro cluster member
      obtain ⟨h, bound, rfl⟩ := List.mem_map.mp member
      exact (passed h (List.mem_range.mp bound)).2) met
  have listed : (List.range (i + 1)).map (follow disk fs dir.firstCluster) =
      (List.range i).map (clusterAt disk fs dir) ++ [clusterAt disk fs dir i] := by
    rw [List.range_succ, List.map_append]
    rfl
  have first := meet_records name83
    (((List.range (i + 1)).map (follow disk fs dir.firstCluster)).length *
      (fs.sectorsPerCluster * 16))
    (linkedContent disk fs ((List.range (i + 1)).map (follow disk fs dir.firstCluster)))
  rw [← linked_records_data (path_clusters path)]
  rw [listed] at first ⊢
  rw [whole] at first
  exact List.mem_of_find?_eq_some first.symm

end Searching

section Succeeding

variable {disk : Nat → Byte} {fs : Fs} (sector buf : Nat)

theorem trusted_of_holds {events : List Event} (holds : ∀ event ∈ events, Holds disk event) :
    Trusted disk events := by
  intro before event after split _ load member
  apply holds
  rw [split]
  exact List.mem_append_left _ member

theorem loading_holds (lba count : Nat) (memory : Memory) (small : count ≤ 8) :
    Holds disk (loading (deliverSectors disk) lba count buf memory) :=
  deliver_read disk lba count buf memory (by omega)

theorem next_holds (cluster : Nat) (memory : Memory) :
    ∀ event ∈ fatNextEvents (deliverSectors disk) fs sector cluster memory, Holds disk event := by
  intro event member
  rcases List.mem_cons.mp member with rfl | later
  · trivial
  · rw [List.mem_singleton.mp later]
    exact loading_holds sector _ 1 memory (by decide)

theorem scan_holds (memory : Memory) (name83 : List Byte) (remaining i : Nat) :
    ∀ event ∈ (scanEntriesLogged buf memory name83 remaining i).1, Holds disk event := by
  induction remaining generalizing i with
  | zero =>
      intro event impossible
      cases impossible
  | succ remaining ih =>
      have later := List.forall_mem_cons.mpr
        ⟨show Holds disk (.look (32 * i)) from trivial, ih (i + 1)⟩
      rw [scanEntriesLogged]
      split_ifs
      · exact List.forall_mem_cons.mpr ⟨trivial, List.forall_mem_nil _⟩
      · exact later
      · exact later
      · exact List.forall_mem_cons.mpr
          ⟨trivial, List.forall_mem_cons.mpr ⟨trivial, List.forall_mem_nil _⟩⟩
      · exact later

theorem find_holds (small : SmallClusters fs) (name83 : List Byte) (fuel cl : Nat)
    (memory : Memory) :
    ∀ event ∈ (findFromLogged (deliverSectors disk) fs sector buf name83 fuel cl memory).1,
      Holds disk event := by
  induction fuel generalizing cl memory with
  | zero =>
      intro event impossible
      cases impossible
  | succ fuel ih =>
      rw [findFromLogged]
      by_cases data : cl < fatEoc
      · rw [if_pos data]
        dsimp only
        have loaded := @loading_holds disk buf (clusterToLba fs cl) _ memory small.small
        have scanned := @scan_holds disk buf
          (deliverSectors disk (clusterToLba fs cl) fs.sectorsPerCluster buf memory).2 name83
          (fs.bytesPerCluster / 32) 0
        have looked := List.forall_mem_cons.mpr ⟨loaded, scanned⟩
        split
        · exact looked
        · exact looked
        · intro event member
          rcases List.mem_append.mp member with early | late
          · rcases List.mem_append.mp early with first | next
            · exact looked event first
            · exact next_holds sector cl _ event next
          · exact ih _ _ event late
      · rw [if_neg data]
        intro event impossible
        cases impossible

theorem skip_holds (skip cl : Nat) (memory : Memory) :
    ∀ event ∈ (skipClustersLogged (deliverSectors disk) fs sector skip cl memory).1,
      Holds disk event := by
  induction skip generalizing cl memory with
  | zero =>
      intro event impossible
      cases impossible
  | succ skip ih =>
      intro event member
      rcases List.mem_append.mp member with next | later
      · exact next_holds sector cl memory event next
      · exact ih _ _ event later

theorem read_from_holds (small : SmallClusters fs) (fuel cl off dst remaining : Nat)
    (memory : Memory) :
    ∀ event ∈ (readFromLogged (deliverSectors disk) fs sector buf fuel cl off dst remaining
      memory).1, Holds disk event := by
  induction fuel generalizing cl off dst remaining memory with
  | zero =>
      intro event impossible
      cases impossible
  | succ fuel ih =>
      rw [readFromLogged]
      by_cases more : remaining ≠ 0 ∧ cl < fatEoc
      · rw [if_pos more]
        dsimp only
        intro event member
        rcases List.mem_append.mp member with early | late
        · rcases List.mem_cons.mp early with rfl | rest
          · exact loading_holds buf _ _ memory small.small
          · rcases List.mem_cons.mp rest with rfl | next
            · trivial
            · exact next_holds sector cl _ event next
        · exact ih _ _ _ _ _ event late
      · rw [if_neg more]
        intro event impossible
        cases impossible

/-- Where every read succeeds there is nothing to distrust. -/
theorem delivered_trusted (small : SmallClusters fs) (fuel : Nat) (handle : File)
    (memory : Memory) :
    (∀ name83, Trusted disk
      (fat32FindLogged (deliverSectors disk) fs sector buf fuel handle name83 memory).1) ∧
    ∀ offset size out, Trusted disk
      (fat32ReadLogged (deliverSectors disk) fs sector buf fuel handle offset size out
        memory).1 := by
  constructor
  · intro name83
    exact trusted_of_holds (find_holds sector buf small name83 fuel _ memory)
  · intro offset size out
    apply trusted_of_holds
    unfold fat32ReadLogged
    dsimp only
    split_ifs
    all_goals intro event member
    · cases member
    · cases member
    all_goals
      rcases List.mem_append.mp member with skipped | copied
      · exact skip_holds sector _ _ memory event skipped
      · exact read_from_holds sector buf small fuel _ _ _ _ _ event copied

end Succeeding

section Mounting

theorem bpb_same {left right : Memory} (same : SameBytes left right) (bpb : Nat) :
    bpbAt left bpb = bpbAt right bpb := by
  have bytes : ∀ address width, readBytes left address width = readBytes right address width :=
    fun address width => read_bytes_congr fun i _ => same (address + i)
  simp only [bpbAt, load8, load16, load32, bytes, same (bpb + 13), same (bpb + 16)]

/-- A mount of which the read failed is refused only if the stale bytes are. -/
theorem mount_honest_iff {disk : Nat → Byte} {diskRead : DiskRead}
    (fallible : Fallible disk diskRead) (bpb partLba : Nat) (memory : Memory) :
    ((fat32Mount diskRead bpb partLba memory).1 = 0 →
        (diskRead partLba 1 bpb memory).1 = 0) ↔
      (diskRead partLba 1 bpb memory).1 = 0 ∨ (bpbAt memory bpb).fatSize32 = 0 ∨
        (bpbAt memory bpb).bytesPerSector ≠ 512 := by
  rcases fallible partLba 1 bpb memory with ⟨read, _⟩ | ⟨failed, untouched⟩
  · exact ⟨fun _ => Or.inl read, fun _ _ => read⟩
  · have nonzero : (diskRead partLba 1 bpb memory).1 ≠ 0 := by
      rw [failed]
      decide
    have stale := bpb_same untouched bpb
    unfold fat32Mount
    dsimp only
    rw [stale]
    by_cases table : (bpbAt memory bpb).fatSize32 = 0
    · rw [if_pos table]
      exact ⟨fun _ => Or.inr (Or.inl table), fun _ impossible => by cases impossible⟩
    · rw [if_neg table]
      by_cases sectors : (bpbAt memory bpb).bytesPerSector ≠ 512
      · rw [if_pos sectors]
        exact ⟨fun _ => Or.inr (Or.inr sectors), fun _ impossible => by cases impossible⟩
      · rw [if_neg sectors]
        constructor
        · intro honest
          exact absurd (honest rfl) nonzero
        · intro refused
          exact absurd refused fun either =>
            either.elim nonzero fun stale => stale.elim table sectors

end Mounting

/-- What may be relied on when reads fail. A mount succeeds on a failed read
exactly if the stale bytes pass for a boot sector; a search and a read report
what the disk holds when whatever they load before handing something out is what
they asked for, and the links keep them to the data of the directory or file. -/
theorem failed_reads_harmless (disk : Nat → Byte) (diskRead : DiskRead)
    (fallible : Fallible disk diskRead) :
    (∀ bpb partLba memory,
      ((fat32Mount diskRead bpb partLba memory).1 = 0 →
          (diskRead partLba 1 bpb memory).1 = 0) ↔
        (diskRead partLba 1 bpb memory).1 = 0 ∨ (bpbAt memory bpb).fatSize32 = 0 ∨
          (bpbAt memory bpb).bytesPerSector ≠ 512) ∧
    (∀ fs sector buf fuel dir name83 memory file final, SmallClusters fs → name83.length = 11 →
      Trusted disk (fat32FindLogged diskRead fs sector buf fuel dir name83 memory).1 →
      ScansData disk fs dir name83 →
      fat32Find diskRead fs sector buf fuel dir name83 memory = .ok (0, some file, final) →
      ∃ found, InDirectory disk fs dir found ∧ file = recordFile found) ∧
    ∀ fs sector buf fuel file offset size out memory result final, SmallClusters fs →
      file.size < 2 ^ 32 → size < 2 ^ 32 → OffBuffers sector buf out size →
      Trusted disk (fat32ReadLogged diskRead fs sector buf fuel file offset size out memory).1 →
      ¬ Overruns disk fs file offset size → ReadsData disk fs file offset size →
      fat32Read diskRead fs sector buf fuel file offset size out memory = .ok (result, final) →
      ∀ i, i < result → FileByte disk fs file (offset + i) (readByte final (out + i)) := by
  refine ⟨mount_honest_iff fallible, ?_, ?_⟩
  · intro fs sector buf fuel dir name83 memory file final small short trusted scans ended
    exact find_trusted sector buf short small fuel dir memory trusted scans ended
  · intro fs sector buf fuel file offset size out memory result final small fileWord sizeWord away
      trusted inside reads ended
    exact read_trusted sector buf fallible small fuel file offset size out memory fileWord sizeWord
      away trusted inside reads ended

theorem hello_found (memory : Memory) :
    ∃ final, fat32Find (deliverSectors chainDisk) chainFs 0x300000 0x400000 3 ⟨2, 0, 0, true⟩
      helloName memory = .ok (0, some (recordFile ⟨helloName, 0, 0, 0⟩), final) := by
  have geometry := mounted_small_clusters chain_mounted (by decide) (by decide)
  obtain ⟨final, found⟩ := @find_returns_first chainDisk chainFs helloName rfl geometry
    ⟨2, 0, 0, true⟩ [2, 3] (data_chain_linked chain_data) 0x300000 0x400000 memory 3 (by decide)
  have first : (linkedRecords chainDisk chainFs [2, 3]).find? (Matches helloName) =
      some ⟨helloName, 0, 0, 0⟩ := by decide +kernel
  rw [first] at found
  exact ⟨final, found⟩

theorem hello_scans_data : ScansData chainDisk chainFs ⟨2, 0, 0, true⟩ helloName := by
  intro i passed _
  match i with
  | 0 => exact ⟨by decide, by decide⟩
  | 1 => exact ⟨by decide +kernel, by decide +kernel⟩
  | i + 2 => exact absurd (passed 1 (by omega)).2 (by decide +kernel)

theorem chain_read (memory : Memory) :
    ∃ final, fat32Read (deliverSectors chainDisk) chainFs 0x300000 0x400000 101
      ⟨2, 600, 0, false⟩ 500 100 0x600000 memory = .ok (100, final) := by
  have geometry := mounted_small_clusters chain_mounted (by decide) (by decide)
  obtain ⟨events, final, runs, _⟩ := @fat32_read_delivered chainDisk chainFs 0x300000 0x400000
    geometry ⟨2, 600, 0, false⟩ 500 100 0x600000 memory (by decide)
  have made : readRounds chainDisk chainFs ⟨2, 600, 0, false⟩ 500 100 =
      [⟨2, 500, 12⟩, ⟨3, 0, 88⟩] := by
    decide +kernel
  rw [made] at runs
  exact ⟨final, (runs 101 (by decide)).1⟩

theorem chain_reads_data : ReadsData chainDisk chainFs ⟨2, 600, 0, false⟩ 500 100 := by
  intro i _ place _ h upTo
  have count : i * 512 < 500 + 100 := place
  obtain rfl | rfl : h = 0 ∨ h = 1 := by omega
  · exact ⟨by decide, by decide⟩
  · exact ⟨by decide +kernel, by decide +kernel⟩

/-- HELLO is found in the second cluster of a directory, and a hundred bytes are
read across the boundary of a file's two clusters. -/
theorem failed_reads_harmless_small :
    ((fat32Mount (deliverSectors chainDisk) 0x500000 0 fun _ => 0).1 = 0 →
        (deliverSectors chainDisk 0 1 0x500000 fun _ => 0).1 = 0) ∧
      (∃ file final found, fat32Find (deliverSectors chainDisk) chainFs 0x300000 0x400000 3
          ⟨2, 0, 0, true⟩ helloName (fun _ => 0) = .ok (0, some file, final) ∧
        InDirectory chainDisk chainFs ⟨2, 0, 0, true⟩ found ∧ file = recordFile found) ∧
      ∃ final, fat32Read (deliverSectors chainDisk) chainFs 0x300000 0x400000 101
          ⟨2, 600, 0, false⟩ 500 100 0x600000 (fun _ => 0) = .ok (100, final) ∧
        ∀ i, i < 100 → FileByte chainDisk chainFs ⟨2, 600, 0, false⟩ (500 + i)
          (readByte final (0x600000 + i)) := by
  have geometry := mounted_small_clusters chain_mounted (by decide) (by decide)
  obtain ⟨mounts, finds, reads⟩ :=
    failed_reads_harmless chainDisk (deliverSectors chainDisk) (deliver_fallible chainDisk)
  refine ⟨(mounts 0x500000 0 fun _ => 0).mpr (Or.inl rfl), ?_, ?_⟩
  · obtain ⟨final, found⟩ := hello_found fun _ => 0
    obtain ⟨record, inside, same⟩ := finds chainFs 0x300000 0x400000 3 ⟨2, 0, 0, true⟩ helloName
      (fun _ => 0) _ final geometry rfl
      ((delivered_trusted 0x300000 0x400000 geometry 3 _ _).1 helloName) hello_scans_data found
    exact ⟨_, final, record, found, inside, same⟩
  · obtain ⟨final, ended⟩ := chain_read fun _ => 0
    refine ⟨final, ended, ?_⟩
    exact reads chainFs 0x300000 0x400000 101 ⟨2, 600, 0, false⟩ 500 100 0x600000 (fun _ => 0) 100
      final geometry (by decide) (by decide)
      ⟨disjoint_of_separate (by decide) (by decide) (by decide),
        disjoint_of_separate (by decide) (by decide) (by decide)⟩
      ((delivered_trusted 0x300000 0x400000 geometry 101 _ _).2 500 100 0x600000)
      (fun overruns => absurd overruns.2.1 (by decide)) chain_reads_data ended

def deadRead : DiskRead := fun _ _ _ memory => (-1, memory)

theorem dead_fallible (disk : Nat → Byte) : Fallible disk deadRead :=
  fun _ _ _ _ => Or.inr ⟨rfl, fun _ => rfl⟩

/-- Left over in the three buffers: a boot sector and one record, HELLO. -/
def staleMemory : Memory := fun i =>
  if 0x500000 ≤ i then smallDisk (i - 0x500000)
  else if 0x400000 ≤ i then smallDisk (i - 0x400000 + 1024) else 0

theorem empty_disk_content (fs : Fs) (clusters : List Nat) :
    ∀ byte ∈ dataContent (fun _ => 0) fs clusters, byte = 0 := by
  intro byte member
  obtain ⟨cluster, _, inside⟩ := List.mem_flatMap.mp member
  obtain ⟨i, bound, rfl⟩ := List.getElem_of_mem inside
  unfold dataBytes at bound ⊢
  rw [window_length] at bound
  have zero := window_get (fun _ => 0) (clusterSector fs cluster * 512) _ i bound
  exact (List.getElem?_eq_some_iff.mp zero).2

/-- The first byte of every directory on an empty disk is its end mark. -/
theorem empty_disk_no_records (dir : File) (found : Record) :
    ¬ InDirectory (fun _ => 0) smallFs dir found := by
  rintro ⟨clusters, _, member⟩
  have empty : dataRecords (fun _ => 0) smallFs clusters = [] := by
    unfold dataRecords
    cases clusters with
    | nil => rfl
    | cons cluster clusters =>
        have sectors : (cluster :: clusters).length * (smallFs.sectorsPerCluster * 16) =
            clusters.length * 16 + 15 + 1 := by
          rw [List.length_cons, Nat.succ_mul]
          rfl
        have size : smallFs.sectorsPerCluster * 512 = 511 + 1 := by decide
        rw [sectors, records, if_pos]
        unfold dataContent dataBytes
        rw [List.flatMap_cons, size, window]
        rfl
  rw [empty] at member
  cases member

/-- Over an empty disk that answers no call, stale bytes are mounted, found and read. -/
theorem dead_reads_reported :
    Fallible (fun _ => 0) deadRead ∧
      ((fat32Mount deadRead 0x500000 0 staleMemory).1 = 0 ∧
        (deadRead 0 1 0x500000 staleMemory).1 = -1) ∧
      (∃ file final, fat32Find deadRead smallFs 0x300000 0x400000 2 ⟨2, 0, 0, true⟩ helloName
          staleMemory = .ok (0, some file, final) ∧
        ∀ found, ¬ InDirectory (fun _ => 0) smallFs ⟨2, 0, 0, true⟩ found) ∧
      ∃ final, fat32Read deadRead smallFs 0x300000 0x400000 2 ⟨2, 5, 0, false⟩ 0 5 0x600000
          staleMemory = .ok (5, final) ∧
        ¬ FileByte (fun _ => 0) smallFs ⟨2, 5, 0, false⟩ 0 (readByte final 0x600000) := by
  refine ⟨dead_fallible _, ⟨by decide +kernel, rfl⟩, ⟨_, _, rfl, ?_⟩, _, rfl, ?_⟩
  · exact empty_disk_no_records ⟨2, 0, 0, true⟩
  · intro own
    obtain ⟨clusters, _, held⟩ := own.stored
    have zero := empty_disk_content smallFs clusters _ (List.mem_of_getElem? held)
    revert zero
    decide +kernel

end LumenOS.Fat32Failures
