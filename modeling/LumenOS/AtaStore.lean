import LumenOS.AtaDisk
import LumenOS.SectorLedger

/-!
# The ATA disk as a store of sectors

`disk_read` and `disk_write` poll the drive, so a run of calls is one for a
number of polls that each loop may spend. Given enough of them every run ends,
and the drive answers it as a ledger that keeps the last write to each byte
and shows the odd bytes of a sector as zero.
-/

namespace LumenOS.AtaStore

open LumenOS.ByteMemory LumenOS.AtaDisk LumenOS.StepRuns LumenOS.WriteHistory LumenOS.SectorLedger

set_option autoImplicit false

structure Host where
  machine : Machine
  codes : List Int

def Host.answer (host : Host) (result : Int × Machine) : Host where
  machine := result.2
  codes := host.codes ++ [result.1]

def hostStep (polls : Nat) (host : Host) : Call → Option Host
  | .read lba buf count => (diskRead polls lba buf count host.machine).map host.answer
  | .write lba buf count => (diskWrite polls lba buf count host.machine).map host.answer
  | .store address bytes =>
      some { host with
        machine := { host.machine with memory := writeBytes host.machine.memory address bytes } }

/-- The driver takes every buffer but the null one. -/
def ataManner : Manner where
  capacity := sectorCount
  takes := fun buf => decide (buf ≠ 0)
  seen := lowBytes

/-- Callers keep to sector numbers whose sum is a word. -/
def Proper : Call → Prop
  | .read sector _ count | .write sector _ count => sector + count < 2 ^ 32
  | .store _ _ => True

def onDrive (sectors : Sectors) (place : Nat) : Byte :=
  sectors (place / sectorSize) (place % sectorSize)

/-- The drive holds what the ledger left, memory and codes are the same. -/
structure Tracks (initial : Nat → Byte) (host : Host) (ledger : Ledger) : Prop where
  held : ∀ place, place < sectorCount * sectorSize →
    onDrive host.machine.drive.sectors place = current initial ledger.history place
  memory : host.machine.memory = ledger.memory
  codes : host.codes = ledger.codes

theorem accepts_iff (sector buf count : Nat) :
    ataManner.Accepts sector buf count ↔ buf ≠ 0 ∧ sector + count ≤ sectorCount := by
  unfold Manner.Accepts ataManner
  rw [decide_eq_true_iff]

/-- A sum that is a word is refused by the driver where the ledger refuses it. -/
theorem refused_beyond {sector buf count : Nat} (word : sector + count < 2 ^ 32)
    (refused : ¬ ataManner.Accepts sector buf count) :
    buf = 0 ∨ u32 (sector + count) > sectorCount := by
  rw [accepts_iff] at refused
  unfold u32
  omega

section Sectors

variable {initial : Nat → Byte} {history : List (Write Byte)} {sectors : Sectors}
  (held : ∀ place, place < sectorCount * sectorSize →
    onDrive sectors place = current initial history place)

include held

theorem delivered_shown {sector count : Nat} (fits : sector + count ≤ sectorCount) :
    window (delivered sectors sector) (0 * sectorSize) (count * sectorSize) =
      ataManner.shown initial history sector count := by
  apply window_congr
  intro i bound
  rw [Nat.zero_mul, Nat.zero_add]
  have place : sector * sectorBytes + i < sectorCount * sectorSize := by
    unfold sectorCount at fits ⊢
    unfold sectorSize at bound ⊢
    unfold sectorBytes
    omega
  have row : (sector * sectorBytes + i) / sectorSize = sector + i / sectorSize := by
    unfold sectorBytes sectorSize
    omega
  have column : (sector * sectorBytes + i) % sectorSize = i % sectorSize := by
    unfold sectorBytes sectorSize
    omega
  have parity : i % sectorSize % 2 = (sector * sectorBytes + i) % 2 := by
    unfold sectorBytes sectorSize
    omega
  have byte := held (sector * sectorBytes + i) place
  unfold onDrive at byte
  rw [row, column] at byte
  unfold delivered lowBytes
  rw [parity, byte]
  rfl

theorem held_write {memory : Memory} {sector buf count : Nat} {after : Sectors}
    (stored : ∀ other offset, after other offset =
      if sector + 0 ≤ other ∧ other < sector + 0 + count ∧ offset < 512 then
        readByte memory (buf + (other - sector) * sectorSize + offset)
      else sectors other offset) (place : Nat) (bound : place < sectorCount * sectorSize) :
    onDrive after place = current initial
      (history ++ [⟨sector * sectorBytes, readBytes memory buf (count * sectorBytes)⟩]) place := by
  have column : place % sectorSize < 512 := Nat.mod_lt place (by decide)
  by_cases covers : Write.Covers
      ⟨sector * sectorBytes, readBytes memory buf (count * sectorBytes)⟩ place
  · obtain ⟨offset, rfl⟩ := Nat.exists_eq_add_of_le covers.1
    have inside : offset < (readBytes memory buf (count * sectorBytes)).length :=
      Nat.lt_of_add_lt_add_left covers.2
    have short := inside
    rw [read_bytes_length] at short
    have rows : sector + 0 ≤ (sector * sectorBytes + offset) / sectorSize ∧
        (sector * sectorBytes + offset) / sectorSize < sector + 0 + count := by
      unfold sectorBytes at short ⊢
      unfold sectorSize
      omega
    have address : buf + ((sector * sectorBytes + offset) / sectorSize - sector) * sectorSize +
        (sector * sectorBytes + offset) % sectorSize = buf + offset := by
      unfold sectorBytes sectorSize
      omega
    have byte := current_covered initial history
      ⟨sector * sectorBytes, readBytes memory buf (count * sectorBytes)⟩ offset inside
    unfold onDrive
    rw [stored, if_pos ⟨rows.1, rows.2, column⟩, address, byte]
    have read := read_bytes_get memory buf (count * sectorBytes) offset short
    rw [List.getElem?_eq_getElem inside] at read
    exact (Option.some.inj read).symm
  · rw [current_missed initial history _ covers, ← held place bound]
    unfold onDrive
    rw [stored, if_neg]
    intro rows
    apply covers
    unfold Write.Covers
    dsimp only
    rw [read_bytes_length]
    unfold sectorSize at rows
    unfold sectorBytes
    omega

end Sectors

section Tracking

variable {initial : Nat → Byte} {host : Host} {ledger : Ledger}
  (tracks : Tracks initial host ledger)

include tracks

theorem tracks_refused :
    Tracks initial (host.answer (-1, host.machine)) ledger.refuse :=
  ⟨tracks.held, tracks.memory, congrArg (· ++ [(-1 : Int)]) tracks.codes⟩

theorem tracks_read {sector buf count : Nat} (proper : Proper (.read sector buf count)) :
    ∃ needed next, (∀ polls, needed ≤ polls →
        hostStep polls host (.read sector buf count) = some next) ∧
      Tracks initial next (ledgerStep ataManner initial ledger (.read sector buf count)) := by
  by_cases accepted : ataManner.Accepts sector buf count
  · obtain ⟨given, fits⟩ := (accepts_iff sector buf count).mp accepted
    obtain ⟨needed, after, reads, memory, sectors⟩ :=
      read_sectors_spec sector buf count 0 host.machine fits
    refine ⟨needed, host.answer (0, after), ?_, ?_⟩
    · intro polls enough
      rw [hostStep, diskRead, if_neg (in_range_accepted sector buf count given fits),
        reads polls enough]
      rfl
    · rw [ledger_reads _ _ _ accepted]
      constructor
      · intro place bound
        change onDrive after.drive.sectors place = _
        rw [sectors]
        exact tracks.held place bound
      · change after.memory = _
        rw [memory, delivered_shown tracks.held fits, tracks.memory, Nat.zero_mul, Nat.add_zero]
      · exact congrArg (· ++ [(0 : Int)]) tracks.codes
  · refine ⟨0, host.answer (-1, host.machine), ?_, ?_⟩
    · intro polls _
      rw [hostStep, diskRead, if_pos (refused_beyond proper accepted)]
      rfl
    · rw [ledger_refuses_read _ _ _ accepted]
      exact tracks_refused tracks

theorem tracks_write {sector buf count : Nat} (proper : Proper (.write sector buf count)) :
    ∃ needed next, (∀ polls, needed ≤ polls →
        hostStep polls host (.write sector buf count) = some next) ∧
      Tracks initial next (ledgerStep ataManner initial ledger (.write sector buf count)) := by
  by_cases accepted : ataManner.Accepts sector buf count
  · obtain ⟨given, fits⟩ := (accepts_iff sector buf count).mp accepted
    obtain ⟨needed, after, writes, stored⟩ :=
      write_sectors_spec sector buf host.machine.memory count 0 host.machine.drive fits
    refine ⟨needed, host.answer (0, { host.machine with drive := after }), ?_, ?_⟩
    · intro polls enough
      rw [hostStep, diskWrite, if_neg (in_range_accepted sector buf count given fits),
        writes polls enough]
      rfl
    · rw [ledger_writes _ _ _ accepted]
      constructor
      · intro place bound
        rw [← tracks.memory]
        exact held_write tracks.held stored place bound
      · exact tracks.memory
      · exact congrArg (· ++ [(0 : Int)]) tracks.codes
  · refine ⟨0, host.answer (-1, host.machine), ?_, ?_⟩
    · intro polls _
      rw [hostStep, diskWrite, if_pos (refused_beyond proper accepted)]
      rfl
    · rw [ledger_refuses_write _ _ _ accepted]
      exact tracks_refused tracks

theorem tracks_step (call : Call) (proper : Proper call) :
    ∃ needed next, (∀ polls, needed ≤ polls → hostStep polls host call = some next) ∧
      Tracks initial next (ledgerStep ataManner initial ledger call) := by
  cases call with
  | read sector buf count => exact tracks_read tracks proper
  | write sector buf count => exact tracks_write tracks proper
  | store address bytes =>
      refine ⟨0, _, fun _ _ => rfl, tracks.held, ?_, tracks.codes⟩
      exact congrArg (writeBytes · address bytes) tracks.memory

end Tracking

/-- With enough polls every run of calls ends, and the drive answers it as the
ledger of its accepted writes. -/
theorem ata_keeps_last_write (machine : Machine) (calls : List Call)
    (proper : ∀ call ∈ calls, Proper call) :
    ∃ needed final,
      (∀ polls, needed ≤ polls → calls.foldlM (hostStep polls) ⟨machine, []⟩ = some final) ∧
      Tracks (onDrive machine.drive.sectors) final
        (run (ledgerStep ataManner (onDrive machine.drive.sectors)) (emptyLedger machine.memory)
          calls) := by
  have start : Tracks (onDrive machine.drive.sectors) ⟨machine, []⟩
      (emptyLedger machine.memory) := ⟨fun _ _ => rfl, rfl, rfl⟩
  apply run_settles _ _ _ start calls proper
  intro host ledger call tracks allowed
  exact tracks_step tracks call allowed

def sampleCalls : List Call :=
  [.store 0x300000 (List.replicate 512 7), .write 1 0x300000 1, .write 1 0x300200 1,
    .read 0 0x400000 2, .read 1048575 0x400000 2]

theorem sample_calls_proper : ∀ call ∈ sampleCalls, Proper call := by
  intro call member
  simp only [sampleCalls, List.mem_cons, List.not_mem_nil, or_false] at member
  rcases member with rfl | rfl | rfl | rfl | rfl
  · trivial
  all_goals
    unfold Proper
    decide

theorem ata_keeps_last_write_sample :
    ∃ needed final,
      (∀ polls, needed ≤ polls →
        sampleCalls.foldlM (hostStep polls) ⟨blankMachine fun _ => 0, []⟩ = some final) ∧
      Tracks (onDrive (blankMachine fun _ => 0).drive.sectors) final
        (run (ledgerStep ataManner (onDrive (blankMachine fun _ => 0).drive.sectors))
          (emptyLedger (blankMachine fun _ => 0).memory) sampleCalls) :=
  ata_keeps_last_write (blankMachine fun _ => 0) sampleCalls sample_calls_proper

end LumenOS.AtaStore
