import LumenOS.Fat32Search
import LumenOS.Fat32Trace
import LumenOS.Fat32Volume
import LumenOS.StringOrder

/-!
# A search as the first match among records

The records of a directory are those of its clusters' bytes put together. The
loop of `fat32_find` over a chain of clusters gives the first of them that is
no piece of a long name and has the name, wherever clusters end.
-/

namespace LumenOS.Fat32Records

open LumenOS.ByteMemory LumenOS.StringModel LumenOS.Fat32Model LumenOS.Fat32Delivery
open LumenOS.Fat32Search LumenOS.Fat32Slice LumenOS.Fat32Trace LumenOS.Fat32Volume
open LumenOS.StringOrder

set_option autoImplicit false

section Names

theorem memcmp_zero_iff {left right : List Byte} (same : left.length = right.length) :
    memcmp left right = 0 ↔ left = right := by
  rw [memcmp_first_difference left right same]
  exact (first_difference_sign left right (.inr same)).same

def recordFile (entry : Record) : File where
  firstCluster := entry.firstCluster
  size := entry.size
  pos := 0
  isDir := entry.attr &&& 0x10 != 0

/-- What `fat32_find` compares with the name, and finds equal. -/
def Matches (name83 : List Byte) (entry : Record) : Bool :=
  decide (entry.attr ≠ 0x0F ∧ entry.name = name83)

def scanBytes (name83 : List Byte) : Nat → List Byte → Scan
  | 0, _ => .exhausted
  | count + 1, bytes =>
      if bytes.head? = some 0 then .endOfDirectory
      else if Matches name83 (record (bytes.take 32)) then
        .found (recordFile (record (bytes.take 32)))
      else scanBytes name83 count (bytes.drop 32)

/-- How far a scan gets: to the end of its bytes, to an end mark, to a record. -/
inductive Meeting where
  | nothing
  | endMark
  | entry (found : Record)
  deriving DecidableEq

def meet (name83 : List Byte) : Nat → List Byte → Meeting
  | 0, _ => .nothing
  | count + 1, bytes =>
      if bytes.head? = some 0 then .endMark
      else if Matches name83 (record (bytes.take 32)) then .entry (record (bytes.take 32))
      else meet name83 count (bytes.drop 32)

def Meeting.scan : Meeting → Scan
  | .nothing => .exhausted
  | .endMark => .endOfDirectory
  | .entry found => .found (recordFile found)

def Meeting.record? : Meeting → Option Record
  | .entry found => some found
  | _ => none

theorem scan_bytes_meet (name83 : List Byte) (count : Nat) (bytes : List Byte) :
    scanBytes name83 count bytes = (meet name83 count bytes).scan := by
  induction count generalizing bytes with
  | zero => rfl
  | succ count ih =>
      rw [scanBytes, meet, ih]
      split_ifs <;> rfl

theorem meet_records (name83 : List Byte) (count : Nat) (bytes : List Byte) :
    (meet name83 count bytes).record? = (records count bytes).find? (Matches name83) := by
  induction count generalizing bytes with
  | zero => rfl
  | succ count ih =>
      rw [meet, records]
      by_cases ended : bytes.head? = some 0
      · rw [if_pos ended, if_pos ended]
        rfl
      · rw [if_neg ended, if_neg ended, List.find?_cons]
        cases Matches name83 (record (bytes.take 32)) with
        | true => rfl
        | false => exact ih _

theorem meet_append {name83 : List Byte} (first second : Nat) (front behind : List Byte)
    (whole : front.length = 32 * first) :
    meet name83 (first + second) (front ++ behind) =
      match meet name83 first front with
      | .nothing => meet name83 second behind
      | ended => ended := by
  induction first generalizing front with
  | zero =>
      have empty : front = [] := List.eq_nil_of_length_eq_zero (by rw [whole])
      rw [empty, Nat.zero_add, List.nil_append]
      rfl
  | succ first ih =>
      have head : (front ++ behind).head? = front.head? := by
        cases front with
        | nil =>
            rw [List.length_nil] at whole
            omega
        | cons byte front => rfl
      have taken : (front ++ behind).take 32 = front.take 32 :=
        List.take_append_of_le_length (by omega)
      have dropped : (front ++ behind).drop 32 = front.drop 32 ++ behind :=
        List.drop_append_of_le_length (by omega)
      rw [Nat.succ_add, meet, meet, head, taken, dropped]
      split
      · rfl
      · split
        · rfl
        · exact ih (front.drop 32) (by rw [List.length_drop]; omega)

end Names

section Entries

theorem word_pair (low high : Nat) (lowBound : low < 2 ^ 16) (highBound : high < 2 ^ 16) :
    u32 ((high <<< 16) ||| low) = low + 2 ^ 16 * high := by
  have joined := Nat.shiftLeft_add_eq_or_of_lt lowBound high
  rw [← joined, Nat.shiftLeft_eq]
  unfold u32
  omega

theorem decode_bound (bytes : List Byte) : decodeLE bytes < 256 ^ bytes.length := by
  induction bytes with
  | nil => exact Nat.one_pos
  | cons byte bytes ih =>
      have small := byte.toNat_lt
      rw [decodeLE, List.length_cons, Nat.pow_succ]
      omega

theorem dirent_record (memory : Memory) (address : Nat) :
    (direntAt memory address).name = (record (readBytes memory address 32)).name ∧
      (direntAt memory address).attr = (record (readBytes memory address 32)).attr ∧
      direntFile (direntAt memory address) = recordFile (record (readBytes memory address 32)) := by
  have field : ∀ offset width, offset + width ≤ 32 →
      readBytes memory (address + offset) width =
        ((readBytes memory address 32).drop offset).take width :=
    fun offset width inside => read_bytes_slice memory address 32 offset width inside
  have name := field 0 11 (by decide)
  rw [Nat.add_zero, List.drop_zero] at name
  have attr : load8 memory (address + 11) =
      decodeLE (((readBytes memory address 32).drop 11).take 1) := by
    rw [← field 11 1 (by decide)]
    change _ = (readByte memory (address + 11)).toNat + 256 * 0
    rfl
  have first : u32 ((load16 memory (address + 20) <<< 16) ||| load16 memory (address + 26)) =
      (record (readBytes memory address 32)).firstCluster := by
    have low := decode_bound (readBytes memory (address + 26) 2)
    have high := decode_bound (readBytes memory (address + 20) 2)
    rw [read_bytes_length] at low high
    unfold load16 record
    rw [word_pair _ _ low high, field 26 2 (by decide), field 20 2 (by decide)]
  have size := congrArg decodeLE (field 28 4 (by decide))
  refine ⟨name, attr, ?_⟩
  unfold direntFile recordFile direntAt
  dsimp only
  rw [first, attr]
  exact congrArg (fun size => (⟨_, size, 0, _⟩ : File)) size

theorem char_never_deleted (byte : Byte) : charValue byte ≠ 0xE5 := by
  have small := byte.toNat_lt
  unfold charValue
  split <;> omega

theorem char_zero_iff (byte : Byte) : charValue byte = 0 ↔ byte = 0 := by
  have small := byte.toNat_lt
  have zero : byte = 0 ↔ byte.toNat = 0 := UInt8.toNat_inj.symm
  unfold charValue
  rw [zero]
  split <;> omega

/-- What the scan of entries in memory does when their bytes are met. -/
def MeetsEntries (scanned : List Event × Scan) : Meeting → Prop
  | .nothing => chosen scanned.1 = [] ∧ scanned.2 = .exhausted
  | .endMark => chosen scanned.1 = [] ∧ scanned.2 = .endOfDirectory
  | .entry found => ∃ dirent, chosen scanned.1 = [dirent] ∧
      scanned.2 = .found (recordFile found) ∧ dirent.name = found.name ∧
      dirent.attr = found.attr ∧ direntFile dirent = recordFile found

theorem meets_looked {scanned : List Event × Scan} {meeting : Meeting} (start : Nat)
    (later : MeetsEntries scanned meeting) :
    MeetsEntries (.look start :: scanned.1, scanned.2) meeting := by
  cases meeting with
  | nothing => exact later
  | endMark => exact later
  | entry found => exact later

/-- The entries of a cluster are scanned by their bytes; no entry counts as
deleted, because a `char` is never 0xE5. -/
theorem scan_logged_meets {name83 : List Byte} (short : name83.length = 11) (memory : Memory)
    (buf remaining i : Nat) :
    MeetsEntries (scanEntriesLogged buf memory name83 remaining i)
      (meet name83 remaining (readBytes memory (buf + 32 * i) (32 * remaining))) := by
  induction remaining generalizing i with
  | zero => exact ⟨rfl, rfl⟩
  | succ remaining ih =>
      have split : readBytes memory (buf + 32 * i) (32 * (remaining + 1)) =
          readBytes memory (buf + 32 * i) 32 ++
            readBytes memory (buf + 32 * (i + 1)) (32 * remaining) := by
        rw [Nat.mul_succ, Nat.add_comm (32 * remaining) 32, read_bytes_append, Nat.mul_succ,
          Nat.add_assoc]
      have head : (readBytes memory (buf + 32 * i) 32 ++
          readBytes memory (buf + 32 * (i + 1)) (32 * remaining)).head? =
            some (readByte memory (buf + 32 * i)) := rfl
      have length := read_bytes_length memory (buf + 32 * i) 32
      obtain ⟨name, attr, file⟩ := dirent_record memory (buf + 32 * i)
      have named : (direntAt memory (buf + 32 * i)).name.length = name83.length := by
        rw [short]
        exact read_bytes_length memory (buf + 32 * i) 11
      have later := meets_looked (32 * i) (ih (i + 1))
      rw [scanEntriesLogged, meet, split, head, List.take_left' length, List.drop_left' length]
      by_cases zero : readByte memory (buf + 32 * i) = 0
      · rw [if_pos ((char_zero_iff _).mpr zero), if_pos (congrArg some zero)]
        exact ⟨rfl, rfl⟩
      · rw [if_neg (fun same => zero ((char_zero_iff _).mp same)), if_neg (char_never_deleted _),
          if_neg (fun same => zero (Option.some.inj same))]
        have equal := memcmp_zero_iff named
        by_cases piece : (direntAt memory (buf + 32 * i)).attr = 0x0F
        · have passed : Matches name83 (record (readBytes memory (buf + 32 * i) 32)) = false := by
            unfold Matches
            rw [← attr]
            simp [piece]
          rw [if_pos piece, passed]
          exact later
        · rw [if_neg piece]
          by_cases same : (direntAt memory (buf + 32 * i)).name = name83
          · have met : Matches name83 (record (readBytes memory (buf + 32 * i) 32)) = true := by
              unfold Matches
              rw [← attr, ← name]
              simp [piece, same]
            rw [if_pos (equal.mpr same), met, file]
            exact ⟨_, rfl, rfl, name, attr, file⟩
          · have passed : Matches name83 (record (readBytes memory (buf + 32 * i) 32)) = false := by
              unfold Matches
              rw [← name]
              simp [same]
            rw [if_neg (fun zero => same (equal.mp zero)), passed]
            exact later

theorem scan_entries_bytes {name83 : List Byte} (short : name83.length = 11) (memory : Memory)
    (remaining i : Nat) :
    scanEntries memory 0 name83 remaining i =
      scanBytes name83 remaining (readBytes memory (32 * i) (32 * remaining)) := by
  have meets := scan_logged_meets short memory 0 remaining i
  rw [Nat.zero_add] at meets
  rw [← scan_entries_logged, scan_bytes_meet]
  cases met : meet name83 remaining (readBytes memory (32 * i) (32 * remaining)) with
  | nothing =>
      rw [met] at meets
      exact meets.2
  | endMark =>
      rw [met] at meets
      exact meets.2
  | entry found =>
      rw [met] at meets
      obtain ⟨dirent, _, scanned, _⟩ := meets
      exact scanned

end Entries

section Chains

variable {disk : Nat → Byte} {fs : Fs} {name83 : List Byte}

theorem scan_cluster_bytes (short : name83.length = 11) (geometry : SmallClusters fs)
    (cluster : Nat) :
    scanCluster disk fs name83 cluster =
      scanBytes name83 (fs.sectorsPerCluster * 16) (clusterBytes disk fs cluster) := by
  have limit := geometry.small
  have size : 32 * (fs.sectorsPerCluster * 16) = fs.sectorsPerCluster * 512 := by omega
  have loaded : readBytes (clusterMemory disk fs cluster) 0 (fs.sectorsPerCluster * 512) =
      clusterBytes disk fs cluster := by
    rw [read_bytes_window]
    apply window_congr
    intro i bound
    have word : u32 (0 + (0 + i)) = i := by
      unfold u32
      omega
    rw [readByte, word]
    rfl
  unfold scanCluster
  rw [geometry.records, scan_entries_bytes short, Nat.mul_zero, size, loaded]

theorem scan_bytes_append (first second : Nat) (front behind : List Byte)
    (whole : front.length = 32 * first) :
    scanBytes name83 (first + second) (front ++ behind) =
      match scanBytes name83 first front with
      | .exhausted => scanBytes name83 second behind
      | ended => ended := by
  rw [scan_bytes_meet, scan_bytes_meet, scan_bytes_meet,
    meet_append first second front behind whole]
  cases meet name83 first front <;> rfl

def answer : Scan → Int × Option File
  | .found file => (0, some file)
  | _ => (-1, none)

/-- The search over a chain is one scan of its bytes. -/
theorem search_chain (short : name83.length = 11) (geometry : SmallClusters fs)
    {first : Nat} {clusters : List Nat} (chain : StoredChain disk fs first clusters)
    {fuel : Nat} (enough : clusters.length < fuel) :
    searchFrom disk fs name83 fuel first =
      .ok (answer (scanBytes name83 (clusters.length * (fs.sectorsPerCluster * 16))
        (chainContent disk fs clusters))) := by
  induction clusters generalizing first fuel with
  | nil =>
      have marked : fatEoc ≤ first := chain
      obtain ⟨less, rfl⟩ : ∃ less, fuel = less + 1 := ⟨fuel - 1, by omega⟩
      rw [searchFrom, if_neg (Nat.not_lt_of_le marked), List.length_nil, Nat.zero_mul]
      rfl
  | cons cluster clusters ih =>
      obtain ⟨rfl, data, below, noWrap, rest⟩ := chain
      rw [List.length_cons] at enough
      obtain ⟨less, rfl⟩ : ∃ less, fuel = less + 1 := ⟨fuel - 1, by omega⟩
      have size : (storedCluster disk fs first).length = 32 * (fs.sectorsPerCluster * 16) := by
        rw [stored_cluster_length]
        omega
      have count : (first :: clusters).length * (fs.sectorsPerCluster * 16) =
          fs.sectorsPerCluster * 16 + clusters.length * (fs.sectorsPerCluster * 16) := by
        rw [List.length_cons, Nat.succ_mul, Nat.add_comm]
      rw [searchFrom, if_pos below, scan_cluster_bytes short geometry,
        cluster_bytes_stored geometry.positive first data below noWrap,
        disk_link_stored first below noWrap, ih rest (by omega), count, chain_content_cons,
        scan_bytes_append _ _ _ _ size]
      cases scanBytes name83 (fs.sectorsPerCluster * 16) (storedCluster disk fs first) <;> rfl

theorem answer_records (count : Nat) (bytes : List Byte) :
    answer (scanBytes name83 count bytes) =
      match (records count bytes).find? (Matches name83) with
      | some entry => (0, some (recordFile entry))
      | none => (-1, none) := by
  rw [scan_bytes_meet, ← meet_records]
  cases meet name83 count bytes <;> rfl

variable (disk fs)

def directoryRecords (clusters : List Nat) : List Record :=
  records (clusters.length * (fs.sectorsPerCluster * 16)) (chainContent disk fs clusters)

variable {disk fs}

/-- `fat32_find` gives the first record of the chain that matches, whatever
memory holds. -/
theorem find_in_chain (short : name83.length = 11) (geometry : SmallClusters fs) (sector buf : Nat)
    (handle : File) {clusters : List Nat}
    (chain : StoredChain disk fs handle.firstCluster clusters) {fuel : Nat}
    (enough : clusters.length < fuel) (memory : Memory) :
    (fat32Find (deliverSectors disk) fs sector buf fuel handle name83 memory).map
        (fun result => (result.1, result.2.1)) =
      .ok (match (directoryRecords disk fs clusters).find? (Matches name83) with
        | some entry => (0, some (recordFile entry))
        | none => (-1, none)) := by
  have search := @find_from_search disk fs name83 geometry.bytes geometry.small sector buf fuel
    handle.firstCluster memory
  rw [search_chain short geometry chain enough, answer_records] at search
  exact search

end Chains

end LumenOS.Fat32Records
