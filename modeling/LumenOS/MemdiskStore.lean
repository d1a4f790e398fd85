import LumenOS.Fat32Model
import LumenOS.SectorLedger

/-!
# The memory disk as a store of sectors

`memdisk_read` and `memdisk_write` copy between the image and the caller's
buffer. Seen over a whole run, with the rest of the kernel storing what it
likes off the image, they are a store that keeps the last write to each byte:
a ledger of the accepted writes answers every call as the image does.
-/

namespace LumenOS.MemdiskStore

open LumenOS.ByteMemory LumenOS.StringModel LumenOS.Fat32Model LumenOS.RecordTable
open LumenOS.StepRuns LumenOS.WriteHistory LumenOS.SectorLedger

set_option autoImplicit false

structure Device where
  memory : Memory
  codes : List Int

def Device.answer (device : Device) (result : Int × Memory) : Device where
  memory := result.2
  codes := device.codes ++ [result.1]

def deviceStep (ctx : MemdiskCtx) (device : Device) : Call → Device
  | .read sector buf count => device.answer (memdiskRead ctx sector buf count device.memory)
  | .write sector buf count => device.answer (memdiskWrite ctx sector buf count device.memory)
  | .store address bytes => { device with memory := writeBytes device.memory address bytes }

/-- The memory disk takes every buffer and shows what it holds. -/
def memdiskManner (size : Nat) : Manner where
  capacity := size / 512
  takes := fun _ => true
  seen := id

/-- What callers keep to: sector numbers whose sum is a word, and bytes of
their own off the image. -/
def Proper (base capacity : Nat) : Call → Prop
  | .read sector buf count | .write sector buf count =>
      sector + count < 2 ^ 32 ∧
        Disjoint buf (count * sectorBytes) base (capacity * sectorBytes)
  | .store address bytes => Disjoint address bytes.length base (capacity * sectorBytes)

structure Tracks (base capacity : Nat) (initial : Nat → Byte) (device : Device) (ledger : Ledger) :
    Prop where
  image : Mirrors device.memory base (capacity * sectorBytes) initial ledger.history
  beside : ∀ address, (∀ i, i < capacity * sectorBytes → u32 address ≠ u32 (base + i)) →
    readByte device.memory address = readByte ledger.memory address
  codes : device.codes = ledger.codes

section Transfers

variable {base size : Nat}

theorem transfer_words {sector count : Nat} (sizeWord : size < 2 ^ 32)
    (within : sector + count ≤ size / 512) :
    u32 (sector + count) ≤ size / 512 ∧ u32 (sector * 512) = sector * 512 ∧
      u32 (count * 512) = count * 512 := by
  unfold u32
  refine ⟨?_, ?_, ?_⟩ <;> omega

theorem read_refused {sector count : Nat} (word : sector + count < 2 ^ 32)
    (beyond : ¬ sector + count ≤ size / 512) (buf : Nat) (memory : Memory) :
    memdiskRead (fsUseMemdisk base size) sector buf count memory = (-1, memory) := by
  have outside : u32 (sector + count) > size / 512 := by
    unfold u32
    omega
  exact if_pos outside

theorem write_refused {sector count : Nat} (word : sector + count < 2 ^ 32)
    (beyond : ¬ sector + count ≤ size / 512) (buf : Nat) (memory : Memory) :
    memdiskWrite (fsUseMemdisk base size) sector buf count memory = (-1, memory) := by
  have outside : u32 (sector + count) > size / 512 := by
    unfold u32
    omega
  exact if_pos outside

variable {sector count buf : Nat} (sizeWord : size < 2 ^ 32)
  (within : sector + count ≤ size / 512)
  (apart : Disjoint buf (count * sectorBytes) base (size / 512 * sectorBytes))

include sizeWord within apart

theorem read_accepted (memory : Memory) :
    memdiskRead (fsUseMemdisk base size) sector buf count memory =
      (0, writeBytes memory buf
        (readBytes memory (base + sector * sectorBytes) (count * sectorBytes))) := by
  obtain ⟨accepted, start, length⟩ := transfer_words sizeWord within
  have part : sector * sectorBytes + count * sectorBytes ≤ size / 512 * sectorBytes := by
    unfold sectorBytes
    omega
  unfold memdiskRead fsUseMemdisk
  dsimp only
  rw [if_neg (Nat.not_lt_of_le accepted), start, length]
  apply congrArg
  apply memcpy_disjoint
  · omega
  · exact disjoint_symm (disjoint_part apart part)

theorem write_accepted (memory : Memory) :
    memdiskWrite (fsUseMemdisk base size) sector buf count memory =
      (0, writeBytes memory (base + sector * sectorBytes)
        (readBytes memory buf (count * sectorBytes))) := by
  obtain ⟨accepted, start, length⟩ := transfer_words sizeWord within
  have part : sector * sectorBytes + count * sectorBytes ≤ size / 512 * sectorBytes := by
    unfold sectorBytes
    omega
  unfold memdiskWrite fsUseMemdisk
  dsimp only
  rw [if_neg (Nat.not_lt_of_le accepted), start, length]
  apply congrArg
  apply memcpy_disjoint
  · omega
  · exact disjoint_part apart part

end Transfers

section Tracking

variable {base size : Nat} {initial : Nat → Byte} {device : Device} {ledger : Ledger}
  (sizeWord : size < 2 ^ 32) (fits : base + size ≤ 2 ^ 32)
  (tracks : Tracks base (size / 512) initial device ledger)

/-- A code of its own changes neither side. -/
theorem tracks_refused (tracks : Tracks base (size / 512) initial device ledger) :
    Tracks base (size / 512) initial (device.answer (-1, device.memory)) ledger.refuse :=
  ⟨tracks.image, tracks.beside, congrArg (· ++ [(-1 : Int)]) tracks.codes⟩

include tracks

theorem tracks_stored (address : Nat) (bytes : List Byte)
    (apart : Disjoint address bytes.length base (size / 512 * sectorBytes)) :
    Mirrors (writeBytes device.memory address bytes) base (size / 512 * sectorBytes) initial
        ledger.history ∧
      ∀ other, (∀ i, i < size / 512 * sectorBytes → u32 other ≠ u32 (base + i)) →
        readByte (writeBytes device.memory address bytes) other =
          readByte (writeBytes ledger.memory address bytes) other := by
  constructor
  · apply mirrors_elsewhere tracks.image (changes_written device.memory address bytes)
    exact disjoint_symm apart
  · intro other outside
    apply write_bytes_agree
    exact tracks.beside other outside

theorem tracks_store (address : Nat) (bytes : List Byte)
    (apart : Disjoint address bytes.length base (size / 512 * sectorBytes)) :
    Tracks base (size / 512) initial
      { device with memory := writeBytes device.memory address bytes }
      { ledger with memory := writeBytes ledger.memory address bytes } := by
  obtain ⟨image, beside⟩ := tracks_stored tracks address bytes apart
  exact ⟨image, beside, tracks.codes⟩

include sizeWord

theorem tracks_read {sector count buf : Nat}
    (proper : Proper base (size / 512) (.read sector buf count)) :
    Tracks base (size / 512) initial
      (deviceStep (fsUseMemdisk base size) device (.read sector buf count))
      (ledgerStep (memdiskManner size) initial ledger (.read sector buf count)) := by
  by_cases within : sector + count ≤ size / 512
  · have inside : sector * sectorBytes + count * sectorBytes ≤ size / 512 * sectorBytes := by
      unfold sectorBytes
      omega
    have image : readBytes device.memory (base + sector * sectorBytes) (count * sectorBytes) =
        (memdiskManner size).shown initial ledger.history sector count :=
      mirrors_read tracks.image _ _ inside
    have length : ((memdiskManner size).shown initial ledger.history sector count).length =
        count * sectorBytes := window_length _ _ _
    obtain ⟨kept, beside⟩ := tracks_stored tracks buf
      ((memdiskManner size).shown initial ledger.history sector count)
      (by rw [length]; exact proper.2)
    rw [ledger_reads _ _ _ ⟨rfl, within⟩, deviceStep, read_accepted sizeWord within proper.2, image]
    exact ⟨kept, beside, congrArg (· ++ [(0 : Int)]) tracks.codes⟩
  · rw [ledger_refuses_read _ _ _ fun accepted => within accepted.2, deviceStep,
      read_refused proper.1 within]
    exact tracks_refused tracks

include fits

theorem tracks_write {sector count buf : Nat}
    (proper : Proper base (size / 512) (.write sector buf count)) :
    Tracks base (size / 512) initial
      (deviceStep (fsUseMemdisk base size) device (.write sector buf count))
      (ledgerStep (memdiskManner size) initial ledger (.write sector buf count)) := by
  by_cases within : sector + count ≤ size / 512
  · have whole : base + size / 512 * sectorBytes ≤ 2 ^ 32 := by
      unfold sectorBytes
      omega
    have content : readBytes device.memory buf (count * sectorBytes) =
        readBytes ledger.memory buf (count * sectorBytes) := by
      apply read_bytes_congr
      intro i bound
      exact tracks.beside (buf + i) fun j jBound => proper.2 i j bound jBound
    have length : (readBytes ledger.memory buf (count * sectorBytes)).length =
        count * sectorBytes := read_bytes_length _ _ _
    rw [ledger_writes _ _ _ ⟨rfl, within⟩, deviceStep, write_accepted sizeWord within proper.2,
      content]
    constructor
    · apply mirrors_write tracks.image whole
        ⟨sector * sectorBytes, readBytes ledger.memory buf (count * sectorBytes)⟩
      dsimp only
      rw [length]
      unfold sectorBytes
      omega
    · intro other outside
      rw [← tracks.beside other outside]
      apply write_bytes_outside
      intro i bound
      rw [length] at bound
      rw [Nat.add_assoc]
      apply outside
      unfold sectorBytes at bound ⊢
      omega
    · exact congrArg (· ++ [(0 : Int)]) tracks.codes
  · rw [ledger_refuses_write _ _ _ fun accepted => within accepted.2, deviceStep,
      write_refused proper.1 within]
    exact tracks_refused tracks

theorem tracks_step (call : Call) (proper : Proper base (size / 512) call) :
    Tracks base (size / 512) initial (deviceStep (fsUseMemdisk base size) device call)
      (ledgerStep (memdiskManner size) initial ledger call) := by
  cases call with
  | read sector buf count => exact tracks_read sizeWord tracks proper
  | write sector buf count => exact tracks_write sizeWord fits tracks proper
  | store address bytes => exact tracks_store tracks address bytes proper

end Tracking

def installedImage (memory : Memory) (base : Nat) : Nat → Byte :=
  fun i => readByte memory (base + i)

/-- In every run of reads, writes and other stores the image answers as the
ledger of its accepted writes. -/
theorem memdisk_keeps_last_write (base size : Nat) (sizeWord : size < 2 ^ 32)
    (fits : base + size ≤ 2 ^ 32) (memory : Memory) (calls : List Call)
    (proper : ∀ call ∈ calls, Proper base (size / 512) call) :
    Tracks base (size / 512) (installedImage memory base)
      (run (deviceStep (fsUseMemdisk base size)) ⟨memory, []⟩ calls)
      (run (ledgerStep (memdiskManner size) (installedImage memory base)) (emptyLedger memory)
        calls) := by
  have start : Tracks base (size / 512) (installedImage memory base) ⟨memory, []⟩
      (emptyLedger memory) := ⟨mirrors_nothing memory base _, fun _ _ => rfl, rfl⟩
  have guarded : EachStep (deviceStep (fsUseMemdisk base size))
      (fun _ call => Proper base (size / 512) call) ⟨memory, []⟩ calls :=
    each_step_of_all _ _ proper
  apply reached_related _ _ _ start calls guarded calls (List.prefix_refl calls)
  intro device ledger call tracks allowed
  exact tracks_step sizeWord fits tracks call allowed

def sampleCalls : List Call :=
  [.store 0x300000 (List.replicate 512 7), .write 1 0x300000 1, .read 0 0x400000 2,
    .read 3 0x400000 2]

theorem sample_calls_proper : ∀ call ∈ sampleCalls, Proper 0x200000 (2048 / 512) call := by
  intro call member
  simp only [sampleCalls, List.mem_cons, List.not_mem_nil, or_false] at member
  rcases member with rfl | rfl | rfl | rfl
  · dsimp only [Proper]
    rw [List.length_replicate]
    exact disjoint_of_separate (by decide) (by decide) (by decide)
  · exact ⟨by decide, disjoint_of_separate (by decide) (by decide) (by decide)⟩
  · exact ⟨by decide, disjoint_of_separate (by decide) (by decide) (by decide)⟩
  · exact ⟨by decide, disjoint_of_separate (by decide) (by decide) (by decide)⟩

theorem memdisk_keeps_last_write_sample :
    Tracks 0x200000 (2048 / 512) (installedImage (fun _ => 0) 0x200000)
      (run (deviceStep (fsUseMemdisk 0x200000 2048)) ⟨fun _ => 0, []⟩ sampleCalls)
      (run (ledgerStep (memdiskManner 2048) (installedImage (fun _ => 0) 0x200000))
        (emptyLedger fun _ => 0) sampleCalls) :=
  memdisk_keeps_last_write 0x200000 2048 (by decide) (by decide) (fun _ => 0) sampleCalls
    sample_calls_proper

end LumenOS.MemdiskStore
