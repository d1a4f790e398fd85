import LumenOS.AtaDisk
import LumenOS.Fat32Model

/-!
# The range checks of the block devices

All four functions compare `start + count`, computed in 32 bits, with the
capacity. Each is given here with the sectors its transfer reaches, which the
code itself does not return: the bytes of the image that are copied, or the
sectors for which the drive opens a transfer.
-/

namespace LumenOS.BlockRange

open LumenOS.ByteMemory LumenOS.StringModel LumenOS.Fat32Model LumenOS.AtaDisk

set_option autoImplicit false

structure Outcome (State : Type) where
  code : Int
  touched : List Nat
  state : State

def Ends {State : Type} (call : Nat → Option (Outcome State)) (outcome : Outcome State) : Prop :=
  ∃ needed, ∀ polls, needed ≤ polls → call polls = some outcome

/-- The call succeeds exactly within the capacity, a failed call changes and
reaches nothing, and a successful one stays below the capacity. -/
def RangeExact {State : Type} (capacity start count : Nat) (state : State)
    (call : Nat → Option (Outcome State)) : Prop :=
  ∃ outcome, Ends call outcome ∧ (outcome.code = 0 ↔ start + count ≤ capacity) ∧
    (outcome.code ≠ 0 → outcome.state = state ∧ outcome.touched = []) ∧
    (outcome.code = 0 → ∀ sector ∈ outcome.touched, sector < capacity)

/-- The 32-bit sum wraps around to a value that passes the check. -/
def WrapsInto (capacity start count : Nat) : Prop :=
  2 ^ 32 ≤ start + count ∧ start + count - 2 ^ 32 ≤ capacity

theorem ends_unique {State : Type} {call : Nat → Option (Outcome State)}
    {left right : Outcome State} (leftEnds : Ends call left) (rightEnds : Ends call right) :
    left = right := by
  obtain ⟨leftNeeded, leftCall⟩ := leftEnds
  obtain ⟨rightNeeded, rightCall⟩ := rightEnds
  have first := leftCall (leftNeeded + rightNeeded) (Nat.le_add_right _ _)
  have second := rightCall (leftNeeded + rightNeeded) (Nat.le_add_left _ _)
  exact Option.some.inj (first.symm.trans second)

/-- A call that checks the wrapped sum and nothing else is exact unless the
sum wraps into the capacity. -/
theorem range_exact_iff {State : Type} {capacity start count : Nat} {state : State}
    {call : Nat → Option (Outcome State)} (startWord : start < 2 ^ 32) (countWord : count < 2 ^ 32)
    (capacityWord : capacity < 2 ^ 32)
    (refuses : u32 (start + count) > capacity → Ends call ⟨-1, [], state⟩)
    (accepts : u32 (start + count) ≤ capacity → ∃ touched after, Ends call ⟨0, touched, after⟩ ∧
      (start + count ≤ capacity → ∀ sector ∈ touched, sector < capacity)) :
    RangeExact capacity start count state call ↔ ¬ WrapsInto capacity start count := by
  unfold WrapsInto
  by_cases passes : u32 (start + count) ≤ capacity
  · obtain ⟨touched, after, ends, below⟩ := accepts passes
    unfold u32 at passes
    constructor
    · rintro ⟨outcome, outcomeEnds, exact_code, _⟩ ⟨wraps, _⟩
      have same := ends_unique outcomeEnds ends
      have fits := exact_code.mp (by rw [same])
      omega
    · intro straight
      have fits : start + count ≤ capacity := by omega
      exact ⟨_, ends, iff_of_true rfl fits, fun failed => absurd rfl failed,
        fun _ => below fits⟩
  · have refused := refuses (by omega)
    unfold u32 at passes
    have beyond : ¬ start + count ≤ capacity := by omega
    have failed : ¬ ((-1 : Int) = 0) := by decide
    refine iff_of_true ⟨_, refused, iff_of_false failed beyond, fun _ => ⟨rfl, rfl⟩,
      fun code => absurd code failed⟩ ?_
    omega

section Memdisk

def transferred (ctx : MemdiskCtx) (sector count : Nat) : Nat × Nat :=
  (u32 (sector * ctx.sectorSize), u32 (count * ctx.sectorSize))

def transferredSectors (ctx : MemdiskCtx) (sector count : Nat) : List Nat :=
  (List.range (transferred ctx sector count).2).map fun i =>
    ((transferred ctx sector count).1 + i) / ctx.sectorSize

/-- Either transfer: `copy` takes the image address and the length. -/
def memdiskOutcome (ctx : MemdiskCtx) (copy : Nat → Nat → Memory → Memory)
    (sector count : Nat) (memory : Memory) : Outcome Memory :=
  if u32 (sector + count) > ctx.numSectors then ⟨-1, [], memory⟩
  else
    let range := transferred ctx sector count
    ⟨0, transferredSectors ctx sector count, copy (ctx.base + range.1) range.2 memory⟩

def memdiskReadOutcome (ctx : MemdiskCtx) (sector buf count : Nat) (memory : Memory) :
    Outcome Memory :=
  memdiskOutcome ctx (fun image size memory => memcpy memory buf image size) sector count memory

def memdiskWriteOutcome (ctx : MemdiskCtx) (sector buf count : Nat) (memory : Memory) :
    Outcome Memory :=
  memdiskOutcome ctx (fun image size memory => memcpy memory image buf size) sector count memory

theorem memdisk_read_outcome (ctx : MemdiskCtx) (sector buf count : Nat) (memory : Memory) :
    memdiskRead ctx sector buf count memory =
      ((memdiskReadOutcome ctx sector buf count memory).code,
        (memdiskReadOutcome ctx sector buf count memory).state) := by
  unfold memdiskRead memdiskReadOutcome memdiskOutcome
  split_ifs <;> rfl

theorem memdisk_write_outcome (ctx : MemdiskCtx) (sector buf count : Nat) (memory : Memory) :
    memdiskWrite ctx sector buf count memory =
      ((memdiskWriteOutcome ctx sector buf count memory).code,
        (memdiskWriteOutcome ctx sector buf count memory).state) := by
  unfold memdiskWrite memdiskWriteOutcome memdiskOutcome
  split_ifs <;> rfl

/-- Within the capacity nothing wraps: an image has fewer than 2^23 sectors. -/
theorem transferred_below (fsimgAddr fsimgSize sector count : Nat) (sizeWord : fsimgSize < 2 ^ 32)
    (fits : sector + count ≤ fsimgSize / 512) :
    ∀ other ∈ transferredSectors (fsUseMemdisk fsimgAddr fsimgSize) sector count,
      other < fsimgSize / 512 := by
  intro other member
  obtain ⟨i, inside, rfl⟩ := List.mem_map.mp member
  have bound := List.mem_range.mp inside
  simp only [transferred, fsUseMemdisk, u32] at bound ⊢
  omega

theorem memdisk_exact_iff (fsimgAddr fsimgSize sector count : Nat)
    (copy : Nat → Nat → Memory → Memory) (memory : Memory) (sizeWord : fsimgSize < 2 ^ 32)
    (sectorWord : sector < 2 ^ 32) (countWord : count < 2 ^ 32) :
    RangeExact (fsimgSize / 512) sector count memory
        (fun _ => some (memdiskOutcome (fsUseMemdisk fsimgAddr fsimgSize) copy sector count
          memory)) ↔
      ¬ WrapsInto (fsimgSize / 512) sector count := by
  have capacityWord : fsimgSize / 512 < 2 ^ 32 := by omega
  refine range_exact_iff sectorWord countWord capacityWord ?_ ?_
  · intro beyond
    have refused : u32 (sector + count) > (fsUseMemdisk fsimgAddr fsimgSize).numSectors := beyond
    refine ⟨0, fun _ _ => congrArg some ?_⟩
    rw [memdiskOutcome, if_pos refused]
  · intro within
    have accepted : ¬ u32 (sector + count) > (fsUseMemdisk fsimgAddr fsimgSize).numSectors :=
      Nat.not_lt.mpr within
    exact ⟨_, _, ⟨0, fun _ _ => congrArg some (if_neg accepted)⟩,
      transferred_below fsimgAddr fsimgSize sector count sizeWord⟩

end Memdisk

section Ata

def openSector (drive : Drive) : List Nat :=
  match drive.transfer with
  | .idle => []
  | .reading lba _ => [lba]
  | .writing lba _ => [lba]

/-- The loop both functions make, with the sectors the drive opens. -/
def sectorLoop (polls lba cmd : Nat) (body : Nat → Machine → Machine) :
    Nat → Nat → Machine → Option (List Nat × Machine)
  | 0, _, machine => some ([], machine)
  | remaining + 1, sector, machine => do
      let drive ← issue polls lba sector cmd machine.drive
      let (later, after) ← sectorLoop polls lba cmd body remaining (sector + 1)
        (body sector { machine with drive := drive })
      some (openSector drive ++ later, after)

def readBody (buffer sector : Nat) (machine : Machine) : Machine :=
  readWords buffer sector 256 0 machine

def writeBody (buffer sector : Nat) (machine : Machine) : Machine :=
  { machine with drive := writeWords machine.memory buffer sector 256 0 machine.drive }

theorem read_sectors_loop (polls lba buffer remaining sector : Nat) (machine : Machine) :
    readSectors polls lba buffer remaining sector machine =
      (sectorLoop polls lba ataCmdReadSectors (readBody buffer) remaining sector machine).map
        Prod.snd := by
  induction remaining generalizing sector machine with
  | zero => rfl
  | succ remaining ih =>
      rw [readSectors, sectorLoop]
      cases issue polls lba sector ataCmdReadSectors machine.drive with
      | none => rfl
      | some drive =>
          simp only [Option.bind_eq_bind, Option.bind_some, ih]
          simp only [readBody]
          cases sectorLoop polls lba ataCmdReadSectors (readBody buffer) remaining (sector + 1)
            (readWords buffer sector 256 0 { machine with drive := drive }) <;> rfl

theorem write_sectors_loop (polls lba buffer remaining sector : Nat) (machine : Machine) :
    (writeSectors polls lba buffer machine.memory remaining sector machine.drive).map
        (fun drive => { machine with drive := drive }) =
      (sectorLoop polls lba ataCmdWriteSectors (writeBody buffer) remaining sector machine).map
        Prod.snd := by
  induction remaining generalizing sector machine with
  | zero => rfl
  | succ remaining ih =>
      rw [writeSectors, sectorLoop]
      cases issue polls lba sector ataCmdWriteSectors machine.drive with
      | none => rfl
      | some drive =>
          have rest := ih (sector + 1) (writeBody buffer sector { machine with drive := drive })
          simp only [Option.bind_eq_bind, Option.bind_some]
          simp only [writeBody] at rest ⊢
          rw [rest]
          cases sectorLoop polls lba ataCmdWriteSectors (writeBody buffer) remaining (sector + 1)
            { machine with drive := writeWords machine.memory buffer sector 256 0 drive } <;> rfl

def ataOutcome (polls lba cmd buffer count : Nat) (body : Nat → Machine → Machine)
    (machine : Machine) : Option (Outcome Machine) :=
  if buffer = 0 ∨ u32 (lba + count) > sectorCount then some ⟨-1, [], machine⟩
  else (sectorLoop polls lba cmd body count 0 machine).map fun after => ⟨0, after.1, after.2⟩

def diskReadOutcome (polls lba buffer count : Nat) (machine : Machine) :
    Option (Outcome Machine) :=
  ataOutcome polls lba ataCmdReadSectors buffer count (readBody buffer) machine

def diskWriteOutcome (polls lba buffer count : Nat) (machine : Machine) :
    Option (Outcome Machine) :=
  ataOutcome polls lba ataCmdWriteSectors buffer count (writeBody buffer) machine

theorem disk_read_outcome (polls lba buffer count : Nat) (machine : Machine) :
    diskRead polls lba buffer count machine =
      (diskReadOutcome polls lba buffer count machine).map fun o => (o.code, o.state) := by
  unfold diskRead diskReadOutcome ataOutcome
  split_ifs
  · rfl
  · rw [read_sectors_loop, Option.map_map, Option.map_map]
    rfl

theorem disk_write_outcome (polls lba buffer count : Nat) (machine : Machine) :
    diskWrite polls lba buffer count machine =
      (diskWriteOutcome polls lba buffer count machine).map fun o => (o.code, o.state) := by
  unfold diskWrite diskWriteOutcome ataOutcome
  split_ifs
  · rfl
  · have loop := write_sectors_loop polls lba buffer count 0 machine
    have paired : (writeSectors polls lba buffer machine.memory count 0 machine.drive).map
        (fun drive => ((0 : Int), { machine with drive := drive })) =
        ((writeSectors polls lba buffer machine.memory count 0 machine.drive).map
          (fun drive => { machine with drive := drive })).map fun after => ((0 : Int), after) := by
      rw [Option.map_map]
      rfl
    rw [paired, loop, Option.map_map, Option.map_map]
    rfl

theorem sector_loop_ends (lba cmd : Nat) (body : Nat → Machine → Machine)
    (known : cmd = ataCmdReadSectors ∨ cmd = ataCmdWriteSectors) (remaining sector : Nat)
    (machine : Machine) :
    ∃ needed after, ∀ polls, needed ≤ polls →
      sectorLoop polls lba cmd body remaining sector machine =
        some ((List.range' sector remaining).map fun i => u32 (lba + i) % 2 ^ 28, after) := by
  induction remaining generalizing sector machine with
  | zero => exact ⟨0, machine, fun _ _ => rfl⟩
  | succ remaining ih =>
      obtain ⟨issueNeeded, ready, issued, _, transfer⟩ :=
        issue_opens lba sector cmd machine.drive known
      obtain ⟨restNeeded, after, rest⟩ := ih (sector + 1)
        (body sector { machine with drive := ready })
      have opened : openSector ready = [u32 (lba + sector) % 2 ^ 28] := by
        unfold openSector
        rw [transfer]
        rcases known with rfl | rfl <;> rfl
      refine ⟨issueNeeded + restNeeded, after, ?_⟩
      intro polls enough
      rw [sectorLoop, issued polls (by omega)]
      simp only [Option.bind_eq_bind, Option.bind_some]
      rw [rest polls (by omega), Option.bind_some, opened]
      rfl

theorem ata_exact_iff (lba cmd buffer count : Nat) (body : Nat → Machine → Machine)
    (machine : Machine) (known : cmd = ataCmdReadSectors ∨ cmd = ataCmdWriteSectors)
    (given : buffer ≠ 0) (lbaWord : lba < 2 ^ 32) (countWord : count < 2 ^ 32) :
    RangeExact sectorCount lba count machine
        (fun polls => ataOutcome polls lba cmd buffer count body machine) ↔
      ¬ WrapsInto sectorCount lba count := by
  refine range_exact_iff lbaWord countWord (by decide) ?_ ?_
  · intro beyond
    exact ⟨0, fun polls _ => if_pos (Or.inr beyond)⟩
  · intro within
    obtain ⟨needed, after, loop⟩ := sector_loop_ends lba cmd body known count 0 machine
    have passes : ¬ (buffer = 0 ∨ u32 (lba + count) > sectorCount) := by
      rintro (null | beyond)
      · exact given null
      · omega
    have call : ∀ polls, needed ≤ polls → ataOutcome polls lba cmd buffer count body machine =
        some ⟨0, (List.range' 0 count).map fun i => u32 (lba + i) % 2 ^ 28, after⟩ := by
      intro polls enough
      rw [ataOutcome, if_neg passes, loop polls enough, Option.map_some]
    refine ⟨_, after, ⟨needed, call⟩, ?_⟩
    intro fits sector member
    obtain ⟨i, inside, rfl⟩ := List.mem_map.mp member
    have place := List.mem_range'_1.mp inside
    have limit : lba + count ≤ 1048576 := fits
    have bound : u32 (lba + i) % 2 ^ 28 < 1048576 := by
      unfold u32
      omega
    exact bound

end Ata

/-- For every start and count, each of the four functions checks its range
exactly if and only if the 32-bit sum does not wrap into the capacity. -/
theorem range_checks_exact_iff (fsimgAddr fsimgSize start count buffer : Nat) (memory : Memory)
    (machine : Machine) (sizeWord : fsimgSize < 2 ^ 32) (startWord : start < 2 ^ 32)
    (countWord : count < 2 ^ 32) (given : buffer ≠ 0) :
    let ctx := fsUseMemdisk fsimgAddr fsimgSize
    (RangeExact ctx.numSectors start count memory
        (fun _ => some (memdiskReadOutcome ctx start buffer count memory)) ↔
      ¬ WrapsInto ctx.numSectors start count) ∧
    (RangeExact ctx.numSectors start count memory
        (fun _ => some (memdiskWriteOutcome ctx start buffer count memory)) ↔
      ¬ WrapsInto ctx.numSectors start count) ∧
    (RangeExact sectorCount start count machine
        (fun polls => diskReadOutcome polls start buffer count machine) ↔
      ¬ WrapsInto sectorCount start count) ∧
    (RangeExact sectorCount start count machine
        (fun polls => diskWriteOutcome polls start buffer count machine) ↔
      ¬ WrapsInto sectorCount start count) :=
  ⟨memdisk_exact_iff fsimgAddr fsimgSize start count _ memory sizeWord startWord countWord,
    memdisk_exact_iff fsimgAddr fsimgSize start count _ memory sizeWord startWord countWord,
    ata_exact_iff start _ buffer count _ machine (Or.inl rfl) given startWord countWord,
    ata_exact_iff start _ buffer count _ machine (Or.inr rfl) given startWord countWord⟩

/-- A megabyte image and the last sectors of the ATA disk. -/
theorem range_checks_exact_inside :
    let ctx := fsUseMemdisk 0x1000000 0x100000
    let memory : Memory := fun _ => 0
    (RangeExact ctx.numSectors 5 3 memory
        (fun _ => some (memdiskReadOutcome ctx 5 0x300000 3 memory)) ↔
      ¬ WrapsInto ctx.numSectors 5 3) ∧
    (RangeExact ctx.numSectors 5 3 memory
        (fun _ => some (memdiskWriteOutcome ctx 5 0x300000 3 memory)) ↔
      ¬ WrapsInto ctx.numSectors 5 3) ∧
    (RangeExact sectorCount 5 3 (blankMachine memory)
        (fun polls => diskReadOutcome polls 5 0x300000 3 (blankMachine memory)) ↔
      ¬ WrapsInto sectorCount 5 3) ∧
    (RangeExact sectorCount 5 3 (blankMachine memory)
        (fun polls => diskWriteOutcome polls 5 0x300000 3 (blankMachine memory)) ↔
      ¬ WrapsInto sectorCount 5 3) :=
  range_checks_exact_iff 0x1000000 0x100000 5 3 0x300000 (fun _ => 0) (blankMachine fun _ => 0)
    (by decide) (by decide) (by decide) (by decide)

/-- The sector `cluster_to_lba` gives for cluster one of a volume whose data
begins at sector zero, read with the sector after it. -/
theorem last_sectors_accepted :
    ¬ RangeExact 2048 0xFFFFFFFF 2 (fun _ => 0 : Memory) (fun _ =>
      some (memdiskReadOutcome (fsUseMemdisk 0x1000000 0x100000) 0xFFFFFFFF 0x300000 2
        fun _ => 0)) := by
  have wraps : WrapsInto (0x100000 / 512) 0xFFFFFFFF 2 := by
    unfold WrapsInto
    decide
  intro exact_range
  exact (memdisk_exact_iff 0x1000000 0x100000 0xFFFFFFFF 2 _ (fun _ => 0) (by decide) (by decide)
    (by decide)).mp exact_range wraps

end LumenOS.BlockRange
