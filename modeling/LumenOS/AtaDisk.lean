import LumenOS.ByteMemory

/-!
# The ATA driver of `disk.c` over the port functions of `port.c`

The drive holds 512-byte sectors, addressed with 28 bits through its task file
registers. A read or write command makes it busy for a while, then not yet
ready for a while, and then opens a transfer of 256 words at the data port;
after the last word it is busy again. The lengths of these phases come from an
arbitrary stream, so a polling loop takes the number of polls it may spend.

`inw` keeps its result in an `unsigned char`: the high byte of each word is
lost before `disk_read` unpacks it.
-/

namespace LumenOS.AtaDisk

open LumenOS.ByteMemory

set_option autoImplicit false

def ataIoBase : Nat := 0x1F0
def ataRegData : Nat := ataIoBase + 0
def ataRegSeccnt : Nat := ataIoBase + 2
def ataRegLbaLo : Nat := ataIoBase + 3
def ataRegLbaMid : Nat := ataIoBase + 4
def ataRegLbaHi : Nat := ataIoBase + 5
def ataRegDrive : Nat := ataIoBase + 6
def ataRegStatus : Nat := ataIoBase + 7
def ataRegCmd : Nat := ataIoBase + 7
def ataRegCtrl : Nat := 0x3F6
def ataCmdReadSectors : Nat := 0x20
def ataCmdWriteSectors : Nat := 0x30
def ataSrBsy : Nat := 0x80
def ataSrDrq : Nat := 0x08

/-- `info.sector_count` and `info.sector_size`. -/
def sectorCount : Nat := 1024 * 1024
def sectorSize : Nat := 512

abbrev Sectors := Nat → Nat → Byte

inductive Transfer where
  | idle
  | reading (lba word : Nat)
  | writing (lba word : Nat)
  deriving DecidableEq

structure Drive where
  sectors : Sectors
  lbaLo : Nat
  lbaMid : Nat
  lbaHi : Nat
  drive : Nat
  transfer : Transfer
  busy : Nat
  pending : Nat
  delays : Nat → Nat
  clock : Nat

namespace Drive

def addressed (drive : Drive) : Nat :=
  drive.lbaLo + 2 ^ 8 * drive.lbaMid + 2 ^ 16 * drive.lbaHi + 2 ^ 24 * (drive.drive &&& 0x0F)

/-- The status byte, and the drive one poll later. -/
def poll (drive : Drive) : Nat × Drive :=
  if drive.busy ≠ 0 then (ataSrBsy, { drive with busy := drive.busy - 1 })
  else if drive.pending ≠ 0 then (0, { drive with pending := drive.pending - 1 })
  else if drive.transfer = .idle then (0, drive)
  else (ataSrDrq, drive)

def begin (drive : Drive) (transfer : Transfer) : Drive :=
  { drive with
    transfer := transfer
    busy := drive.delays drive.clock
    pending := drive.delays (drive.clock + 1)
    clock := drive.clock + 2 }

def opens (code lba : Nat) : Transfer :=
  if code = ataCmdReadSectors then .reading lba 0
  else if code = ataCmdWriteSectors then .writing lba 0
  else .idle

/-- A command is taken when the drive is not busy. -/
def command (drive : Drive) (code : Nat) : Drive :=
  if drive.busy ≠ 0 then drive else drive.begin (opens code drive.addressed)

def advance (drive : Drive) (word : Nat) (next : Transfer) : Drive :=
  if word + 1 < 256 then { drive with transfer := next }
  else { drive with
    transfer := .idle
    busy := drive.delays drive.clock
    clock := drive.clock + 1 }

def storeWord (sectors : Sectors) (lba word value : Nat) : Sectors := fun other offset =>
  if other = lba ∧ offset = 2 * word then UInt8.ofNat value
  else if other = lba ∧ offset = 2 * word + 1 then UInt8.ofNat (value / 256)
  else sectors other offset

end Drive

def outb (port value : Nat) (drive : Drive) : Drive :=
  if port = ataRegLbaLo then { drive with lbaLo := u8 value }
  else if port = ataRegLbaMid then { drive with lbaMid := u8 value }
  else if port = ataRegLbaHi then { drive with lbaHi := u8 value }
  else if port = ataRegDrive then { drive with drive := u8 value }
  else if port = ataRegCmd then drive.command (u8 value)
  else drive

def inb (port : Nat) (drive : Drive) : Nat × Drive :=
  if port = ataRegStatus then drive.poll else (0xFF, drive)

def outw (port value : Nat) (drive : Drive) : Drive :=
  match drive.transfer with
  | .writing lba word =>
      if port = ataRegData then
        { drive with sectors := Drive.storeWord drive.sectors lba word (u16 value) }.advance word
          (.writing lba (word + 1))
      else drive
  | _ => drive

/-- The word the hardware puts in `ax`. -/
def portWord (port : Nat) (drive : Drive) : Nat × Drive :=
  match drive.transfer with
  | .reading lba word =>
      if port = ataRegData then
        ((drive.sectors lba (2 * word)).toNat + 256 * (drive.sectors lba (2 * word + 1)).toNat,
          drive.advance word (.reading lba (word + 1)))
      else (0xFFFF, drive)
  | _ => (0xFFFF, drive)

/-- The result passes through `unsigned char ret`. -/
def inw (port : Nat) (drive : Drive) : Nat × Drive :=
  (u8 (portWord port drive).1, (portWord port drive).2)

def ataWaitBsy : Nat → Drive → Option Drive
  | 0, _ => none
  | polls + 1, drive =>
      if (inb ataRegStatus drive).1 &&& ataSrBsy ≠ 0 then
        ataWaitBsy polls (inb ataRegStatus drive).2
      else some (inb ataRegStatus drive).2

def ataWaitDrq : Nat → Drive → Option Drive
  | 0, _ => none
  | polls + 1, drive =>
      if (inb ataRegStatus drive).1 &&& ataSrDrq = 0 then
        ataWaitDrq polls (inb ataRegStatus drive).2
      else some (inb ataRegStatus drive).2

/-- The part `disk_read` and `disk_write` have word for word in common. -/
def issue (polls lba sector cmd : Nat) (drive : Drive) : Option Drive := do
  let drive ← ataWaitBsy polls drive
  let drive := outb ataRegCtrl 0x00 drive
  let drive := outb ataRegSeccnt 1 drive
  let drive := outb ataRegLbaLo (u8 (u32 (lba + sector) &&& 0xFF)) drive
  let drive := outb ataRegLbaMid (u8 ((u32 (lba + sector) >>> 8) &&& 0xFF)) drive
  let drive := outb ataRegLbaHi (u8 ((u32 (lba + sector) >>> 16) &&& 0xFF)) drive
  let drive := outb ataRegDrive (0xE0 ||| ((u32 (lba + sector) >>> 24) &&& 0x0F)) drive
  let drive := outb ataRegCmd cmd drive
  let drive ← ataWaitBsy polls drive
  ataWaitDrq polls drive

structure Machine where
  memory : Memory
  drive : Drive

def readWord (buffer sector i : Nat) (machine : Machine) : Machine :=
  let data := (inw ataRegData machine.drive).1
  let low := buffer + u32 (sector * sectorSize + i * 2)
  let high := buffer + u32 (sector * sectorSize + i * 2 + 1)
  { memory :=
      writeByte (writeByte machine.memory low (UInt8.ofNat (data &&& 0xFF))) high
        (UInt8.ofNat ((data >>> 8) &&& 0xFF))
    drive := (inw ataRegData machine.drive).2 }

def readWords (buffer sector : Nat) : Nat → Nat → Machine → Machine
  | 0, _, machine => machine
  | remaining + 1, i, machine =>
      readWords buffer sector remaining (i + 1) (readWord buffer sector i machine)

def readSectors (polls lba buffer : Nat) : Nat → Nat → Machine → Option Machine
  | 0, _, machine => some machine
  | remaining + 1, sector, machine => do
      let drive ← issue polls lba sector ataCmdReadSectors machine.drive
      readSectors polls lba buffer remaining (sector + 1)
        (readWords buffer sector 256 0 { machine with drive := drive })

def diskRead (polls lba buffer count : Nat) (machine : Machine) : Option (Int × Machine) :=
  if buffer = 0 ∨ u32 (lba + count) > sectorCount then some (-1, machine)
  else (readSectors polls lba buffer count 0 machine).map fun after => (0, after)

def writeWord (memory : Memory) (buffer sector i : Nat) (drive : Drive) : Drive :=
  let low := (readByte memory (buffer + u32 (sector * sectorSize + i * 2))).toNat
  let high := (readByte memory (buffer + u32 (sector * sectorSize + i * 2 + 1))).toNat
  outw ataRegData (u16 (low ||| (high <<< 8))) drive

def writeWords (memory : Memory) (buffer sector : Nat) : Nat → Nat → Drive → Drive
  | 0, _, drive => drive
  | remaining + 1, i, drive =>
      writeWords memory buffer sector remaining (i + 1) (writeWord memory buffer sector i drive)

def writeSectors (polls lba buffer : Nat) (memory : Memory) :
    Nat → Nat → Drive → Option Drive
  | 0, _, drive => some drive
  | remaining + 1, sector, drive => do
      let drive ← issue polls lba sector ataCmdWriteSectors drive
      writeSectors polls lba buffer memory remaining (sector + 1)
        (writeWords memory buffer sector 256 0 drive)

def diskWrite (polls lba buffer count : Nat) (machine : Machine) : Option (Int × Machine) :=
  if buffer = 0 ∨ u32 (lba + count) > sectorCount then some (-1, machine)
  else (writeSectors polls lba buffer machine.memory count 0 machine.drive).map fun drive =>
    (0, { machine with drive := drive })

theorem poll_busy (drive : Drive) (busy : drive.busy ≠ 0) :
    inb ataRegStatus drive = (ataSrBsy, { drive with busy := drive.busy - 1 }) := by
  unfold inb Drive.poll
  rw [if_pos rfl, if_pos busy]

theorem status_bits : 0 &&& ataSrBsy = 0 ∧ ataSrDrq &&& ataSrBsy = 0 ∧
    ataSrBsy &&& ataSrBsy ≠ 0 ∧ ataSrDrq &&& ataSrDrq ≠ 0 := by
  decide

theorem poll_settled (drive : Drive) (settled : drive.busy = 0) :
    (inb ataRegStatus drive).1 &&& ataSrBsy = 0 ∧
    (inb ataRegStatus drive).2 = { drive with pending := drive.pending - 1 } := by
  unfold inb Drive.poll
  rw [if_pos rfl, if_neg (fun busy => busy settled)]
  by_cases pending : drive.pending = 0
  · have same : { drive with pending := drive.pending - 1 } = drive := by
      cases drive
      simp only at pending
      subst pending
      rfl
    rw [if_neg (fun waiting => waiting pending), same]
    by_cases idle : drive.transfer = .idle
    · rw [if_pos idle]
      exact ⟨status_bits.1, rfl⟩
    · rw [if_neg idle]
      exact ⟨status_bits.2.1, rfl⟩
  · rw [if_pos pending]
    exact ⟨status_bits.1, rfl⟩

theorem wait_bsy_settles (drive : Drive) (polls : Nat) (enough : drive.busy < polls) :
    ataWaitBsy polls drive = some { drive with busy := 0, pending := drive.pending - 1 } := by
  induction polls generalizing drive with
  | zero => omega
  | succ polls ih =>
      by_cases busy : drive.busy = 0
      · obtain ⟨status, later⟩ := poll_settled drive busy
        unfold ataWaitBsy
        rw [if_neg (fun set => set status), later, ← busy]
      · have polled := poll_busy drive busy
        have rest := ih { drive with busy := drive.busy - 1 } (by
          change drive.busy - 1 < polls
          omega)
        unfold ataWaitBsy
        rw [polled, if_pos status_bits.2.2.1]
        exact rest

theorem wait_drq_settles (drive : Drive) (polls : Nat) (settled : drive.busy = 0)
    (opened : drive.transfer ≠ .idle) (enough : drive.pending < polls) :
    ataWaitDrq polls drive = some { drive with pending := 0 } := by
  induction polls generalizing drive with
  | zero => omega
  | succ polls ih =>
      have later := (poll_settled drive settled).2
      unfold ataWaitDrq
      by_cases pending : drive.pending = 0
      · have status : (inb ataRegStatus drive).1 = ataSrDrq := by
          unfold inb Drive.poll
          rw [if_pos rfl, if_neg (fun busy => busy settled),
            if_neg (fun waiting => waiting pending), if_neg opened]
        rw [status, if_neg (by decide), later, pending]
      · have status : (inb ataRegStatus drive).1 = 0 := by
          unfold inb Drive.poll
          rw [if_pos rfl, if_neg (fun busy => busy settled), if_pos pending]
        rw [status, if_pos (by decide), later]
        apply ih
        · exact settled
        · exact opened
        · change drive.pending - 1 < polls
          omega

theorem low_bits (value bits : Nat) : value &&& (2 ^ bits - 1) = value % 2 ^ bits :=
  Nat.and_two_pow_sub_one_eq_mod value bits

/-- The task file after the seven writes holds the low 28 bits. -/
theorem addressed_bits (value : Nat) :
    u8 (u8 (value &&& 0xFF)) + 2 ^ 8 * u8 (u8 ((value >>> 8) &&& 0xFF)) +
      2 ^ 16 * u8 (u8 ((value >>> 16) &&& 0xFF)) +
      2 ^ 24 * (u8 (0xE0 ||| ((value >>> 24) &&& 0x0F)) &&& 0x0F) = value % 2 ^ 28 := by
  have byte : ∀ n, u8 (u8 (n &&& 0xFF)) = n % 256 := by
    intro n
    have masked : n &&& 0xFF = n % 2 ^ 8 := low_bits n 8
    rw [masked]
    unfold u8
    omega
  have nibble : ∀ n, u8 (0xE0 ||| (n &&& 0x0F)) &&& 0x0F = n % 16 := by
    intro n
    have masked : n &&& 0x0F = n % 2 ^ 4 := low_bits n 4
    have all : ∀ k, k < 16 → u8 (0xE0 ||| k) &&& 0x0F = k := by decide
    rw [masked]
    exact all (n % 16) (Nat.mod_lt n (by decide))
  rw [byte, byte, byte, nibble, Nat.shiftRight_eq_div_pow, Nat.shiftRight_eq_div_pow,
    Nat.shiftRight_eq_div_pow]
  omega

theorem issue_opens (lba sector cmd : Nat) (drive : Drive)
    (known : cmd = ataCmdReadSectors ∨ cmd = ataCmdWriteSectors) :
    ∃ needed ready, (∀ polls, needed ≤ polls → issue polls lba sector cmd drive = some ready) ∧
      ready.sectors = drive.sectors ∧
      ready.transfer = Drive.opens cmd (u32 (lba + sector) % 2 ^ 28) := by
  let settled : Drive := { drive with
    busy := 0
    pending := drive.pending - 1
    lbaLo := u8 (u8 (u32 (lba + sector) &&& 0xFF))
    lbaMid := u8 (u8 ((u32 (lba + sector) >>> 8) &&& 0xFF))
    lbaHi := u8 (u8 ((u32 (lba + sector) >>> 16) &&& 0xFF))
    drive := u8 (0xE0 ||| ((u32 (lba + sector) >>> 24) &&& 0x0F)) }
  let taken := settled.begin (Drive.opens cmd (u32 (lba + sector) % 2 ^ 28))
  have opened : taken.transfer ≠ .idle := by
    intro impossible
    rcases known with rfl | rfl
    · change Transfer.reading (u32 (lba + sector) % 2 ^ 28) 0 = .idle at impossible
      cases impossible
    · change Transfer.writing (u32 (lba + sector) % 2 ^ 28) 0 = .idle at impossible
      cases impossible
  refine ⟨drive.busy + taken.busy + taken.pending + 1,
    { taken with busy := 0, pending := 0 }, ?_, rfl, rfl⟩
  intro polls enough
  have address : settled.addressed = u32 (lba + sector) % 2 ^ 28 :=
    addressed_bits (u32 (lba + sector))
  have command : settled.command (u8 cmd) = taken := by
    have code : u8 cmd = cmd := by
      rcases known with rfl | rfl <;> rfl
    unfold Drive.command
    rw [if_neg (fun busy => busy rfl), address, code]
  unfold issue
  rw [wait_bsy_settles drive polls (by omega)]
  change (do
    let drive ← ataWaitBsy polls (settled.command (u8 cmd))
    ataWaitDrq polls drive) = _
  rw [command, wait_bsy_settles taken polls (by omega)]
  apply wait_drq_settles
  · rfl
  · exact opened
  · change taken.pending - 1 < polls
    omega

/-- What reaches memory of a sector: `inw` has dropped the odd bytes. -/
def lowBytes (content : Nat → Byte) (offset : Nat) : Byte :=
  if offset % 2 = 1 then 0 else content offset

theorem byte_of_data (low high : Byte) :
    UInt8.ofNat (u8 (low.toNat + 256 * high.toNat) &&& 0xFF) = low ∧
      UInt8.ofNat ((u8 (low.toNat + 256 * high.toNat) >>> 8) &&& 0xFF) = 0 := by
  have bounded := low.toNat_lt
  have kept : u8 (low.toNat + 256 * high.toNat) = low.toNat := by
    unfold u8
    omega
  have masked : low.toNat &&& 0xFF = low.toNat % 2 ^ 8 := low_bits low.toNat 8
  have shifted : low.toNat >>> 8 = 0 := by
    rw [Nat.shiftRight_eq_div_pow]
    omega
  rw [kept, masked, shifted, Nat.mod_eq_of_lt bounded]
  exact ⟨UInt8.ofNat_toNat, rfl⟩

theorem sector_offset (sector offset : Nat) (small : sector < sectorCount)
    (inside : offset < 512) :
    u32 (sector * sectorSize + offset) = sector * sectorSize + offset := by
  have bound : sector < 1048576 := small
  unfold u32 sectorSize
  omega

theorem read_word_spec (buffer sector i lba : Nat) (machine : Machine)
    (small : sector < sectorCount) (inside : i < 256)
    (open_at : machine.drive.transfer = .reading lba i) :
    (readWord buffer sector i machine).memory =
        writeBytes machine.memory (buffer + sector * sectorSize + 2 * i)
          (window (lowBytes (machine.drive.sectors lba)) (2 * i) 2) ∧
      (readWord buffer sector i machine).drive.sectors = machine.drive.sectors ∧
      (i + 1 < 256 → (readWord buffer sector i machine).drive.transfer = .reading lba (i + 1)) := by
  have transferred : portWord ataRegData machine.drive =
      ((machine.drive.sectors lba (2 * i)).toNat +
        256 * (machine.drive.sectors lba (2 * i + 1)).toNat,
        machine.drive.advance i (.reading lba (i + 1))) := by
    unfold portWord
    rw [open_at]
    rfl
  obtain ⟨low, high⟩ := byte_of_data (machine.drive.sectors lba (2 * i))
    (machine.drive.sectors lba (2 * i + 1))
  have lowOffset : buffer + u32 (sector * sectorSize + i * 2) =
      buffer + sector * sectorSize + 2 * i := by
    rw [sector_offset sector (i * 2) small (by omega), Nat.mul_comm i]
    omega
  have highOffset : buffer + u32 (sector * sectorSize + i * 2 + 1) =
      buffer + sector * sectorSize + 2 * i + 1 := by
    have joined : sector * sectorSize + i * 2 + 1 = sector * sectorSize + (i * 2 + 1) :=
      Nat.add_assoc _ _ _
    rw [joined, sector_offset sector (i * 2 + 1) small (by omega)]
    omega
  have even : lowBytes (machine.drive.sectors lba) (2 * i) = machine.drive.sectors lba (2 * i) := by
    unfold lowBytes
    rw [if_neg (by omega)]
  have odd : lowBytes (machine.drive.sectors lba) (2 * i + 1) = 0 := by
    unfold lowBytes
    rw [if_pos (by omega)]
  unfold readWord inw
  simp only [transferred, low, high, lowOffset, highOffset, window, even, odd]
  refine ⟨rfl, ?_, ?_⟩
  · unfold Drive.advance
    split <;> rfl
  · intro more
    unfold Drive.advance
    rw [if_pos more]

theorem read_words_spec (buffer sector lba remaining i : Nat) (machine : Machine)
    (small : sector < sectorCount) (total : i + remaining = 256)
    (open_at : 0 < remaining → machine.drive.transfer = .reading lba i) :
    (readWords buffer sector remaining i machine).memory =
        writeBytes machine.memory (buffer + sector * sectorSize + 2 * i)
          (window (lowBytes (machine.drive.sectors lba)) (2 * i) (2 * remaining)) ∧
      (readWords buffer sector remaining i machine).drive.sectors = machine.drive.sectors := by
  induction remaining generalizing i machine with
  | zero => exact ⟨rfl, rfl⟩
  | succ remaining ih =>
      obtain ⟨memory, sectors, next⟩ := read_word_spec buffer sector i lba machine small
        (by omega) (open_at (by omega))
      obtain ⟨restMemory, restSectors⟩ := ih (i + 1) (readWord buffer sector i machine)
        (by omega) (fun more => next (by omega))
      have count : 2 * (remaining + 1) = 2 + 2 * remaining := by omega
      have address : buffer + sector * sectorSize + 2 * (i + 1) =
          buffer + sector * sectorSize + 2 * i + 2 := by omega
      constructor
      · unfold readWords
        rw [restMemory, memory, sectors, count, window_append, write_bytes_append, window_length,
          address]
        rfl
      · unfold readWords
        rw [restSectors, sectors]

def delivered (sectors : Sectors) (lba offset : Nat) : Byte :=
  lowBytes (sectors (lba + offset / sectorSize)) (offset % sectorSize)

theorem read_sectors_spec (lba buffer remaining sector : Nat) (machine : Machine)
    (fits : lba + sector + remaining ≤ sectorCount) :
    ∃ needed after,
      (∀ polls, needed ≤ polls →
        readSectors polls lba buffer remaining sector machine = some after) ∧
      after.memory = writeBytes machine.memory (buffer + sector * sectorSize)
        (window (delivered machine.drive.sectors lba) (sector * sectorSize)
          (remaining * sectorSize)) ∧
      after.drive.sectors = machine.drive.sectors := by
  induction remaining generalizing sector machine with
  | zero =>
      rw [Nat.zero_mul]
      exact ⟨0, machine, fun _ _ => rfl, rfl, rfl⟩
  | succ remaining ih =>
      obtain ⟨issueNeeded, ready, issued, readySectors, transfer⟩ :=
        issue_opens lba sector ataCmdReadSectors machine.drive (Or.inl rfl)
      have address : u32 (lba + sector) % 2 ^ 28 = lba + sector := by
        have bound : lba + sector + (remaining + 1) ≤ 1048576 := fits
        unfold u32
        omega
      rw [address] at transfer
      obtain ⟨memory, sectors⟩ := read_words_spec buffer sector (lba + sector) 256 0
        { machine with drive := ready } (by omega) rfl (fun _ => transfer)
      obtain ⟨restNeeded, after, rest, restMemory, restSectors⟩ := ih (sector + 1)
        (readWords buffer sector 256 0 { machine with drive := ready }) (by omega)
      refine ⟨issueNeeded + restNeeded, after, ?_, ?_, ?_⟩
      · intro polls enough
        unfold readSectors
        rw [issued polls (by omega)]
        exact rest polls (by omega)
      · have count : (remaining + 1) * sectorSize = sectorSize + remaining * sectorSize := by
          rw [Nat.succ_mul, Nat.add_comm]
        have here : window (lowBytes (machine.drive.sectors (lba + sector))) (2 * 0) (2 * 256) =
            window (delivered machine.drive.sectors lba) (sector * sectorSize) sectorSize := by
          apply window_congr
          intro i bound
          have row : (sector * sectorSize + i) / sectorSize = sector := by
            unfold sectorSize at bound ⊢
            omega
          have column : (sector * sectorSize + i) % sectorSize = 2 * 0 + i := by
            unfold sectorSize at bound ⊢
            omega
          unfold delivered
          rw [row, column]
        have next : (sector + 1) * sectorSize = sector * sectorSize + sectorSize :=
          Nat.succ_mul sector sectorSize
        rw [restMemory, memory, sectors, readySectors, here, count, window_append,
          write_bytes_append, window_length, next, ← Nat.add_assoc, Nat.mul_zero, Nat.add_zero]
      · rw [restSectors, sectors, readySectors]

theorem data_of_bytes (low high : Byte) :
    u16 (low.toNat ||| (high.toNat <<< 8)) = low.toNat + 256 * high.toNat := by
  have lowBound := low.toNat_lt
  have highBound := high.toNat_lt
  have joined : high.toNat <<< 8 + low.toNat = high.toNat <<< 8 ||| low.toNat :=
    Nat.shiftLeft_add_eq_or_of_lt lowBound high.toNat
  rw [Nat.or_comm, ← joined, Nat.shiftLeft_eq]
  unfold u16
  omega

theorem store_word_bytes (sectors : Sectors) (lba word : Nat) (low high : Byte)
    (other offset : Nat) :
    Drive.storeWord sectors lba word (low.toNat + 256 * high.toNat) other offset =
      if other = lba ∧ offset = 2 * word then low
      else if other = lba ∧ offset = 2 * word + 1 then high
      else sectors other offset := by
  have lowBound := low.toNat_lt
  have upper : (low.toNat + 256 * high.toNat) / 256 = high.toNat := by
    omega
  have lower : UInt8.ofNat (low.toNat + 256 * high.toNat) = low := by
    apply UInt8.toNat_inj.mp
    rw [UInt8.toNat_ofNat']
    omega
  unfold Drive.storeWord
  rw [upper, lower, UInt8.ofNat_toNat]

theorem write_word_spec (memory : Memory) (buffer sector i lba : Nat) (drive : Drive)
    (small : sector < sectorCount) (inside : i < 256)
    (open_at : drive.transfer = .writing lba i) :
    (∀ other offset, (writeWord memory buffer sector i drive).sectors other offset =
      if other = lba ∧ 2 * i ≤ offset ∧ offset < 2 * (i + 1) then
        readByte memory (buffer + sector * sectorSize + offset)
      else drive.sectors other offset) ∧
      (i + 1 < 256 → (writeWord memory buffer sector i drive).transfer = .writing lba (i + 1)) := by
  have lowOffset : buffer + u32 (sector * sectorSize + i * 2) =
      buffer + sector * sectorSize + 2 * i := by
    rw [sector_offset sector (i * 2) small (by omega), Nat.mul_comm i]
    omega
  have highOffset : buffer + u32 (sector * sectorSize + i * 2 + 1) =
      buffer + sector * sectorSize + (2 * i + 1) := by
    rw [Nat.add_assoc, sector_offset sector (i * 2 + 1) small (by omega)]
    omega
  let low := readByte memory (buffer + sector * sectorSize + 2 * i)
  let high := readByte memory (buffer + sector * sectorSize + (2 * i + 1))
  let stored : Drive := { drive with
    sectors := Drive.storeWord drive.sectors lba i (low.toNat + 256 * high.toNat) }
  have written : writeWord memory buffer sector i drive =
      stored.advance i (.writing lba (i + 1)) := by
    have word : u16 (u16 (low.toNat ||| (high.toNat <<< 8))) = low.toNat + 256 * high.toNat := by
      rw [data_of_bytes, ← data_of_bytes]
      exact Nat.mod_mod _ _
    unfold writeWord outw
    rw [lowOffset, highOffset, open_at]
    simp only [word, if_true, low, high, stored]
    rw [open_at]
  rw [written]
  constructor
  · intro other offset
    have kept : (stored.advance i (.writing lba (i + 1))).sectors = stored.sectors := by
      unfold Drive.advance
      split <;> rfl
    rw [kept]
    change Drive.storeWord drive.sectors lba i (low.toNat + 256 * high.toNat) other offset = _
    rw [store_word_bytes]
    by_cases even : other = lba ∧ offset = 2 * i
    · rw [if_pos even, if_pos (by omega), even.2]
    · by_cases odd : other = lba ∧ offset = 2 * i + 1
      · rw [if_neg even, if_pos odd, if_pos (by omega), odd.2]
      · rw [if_neg even, if_neg odd, if_neg (by omega)]
  · intro more
    unfold Drive.advance
    rw [if_pos more]

theorem write_words_spec (memory : Memory) (buffer sector lba remaining i : Nat) (drive : Drive)
    (small : sector < sectorCount) (total : i + remaining = 256)
    (open_at : 0 < remaining → drive.transfer = .writing lba i) :
    ∀ other offset, (writeWords memory buffer sector remaining i drive).sectors other offset =
      if other = lba ∧ 2 * i ≤ offset ∧ offset < 512 then
        readByte memory (buffer + sector * sectorSize + offset)
      else drive.sectors other offset := by
  induction remaining generalizing i drive with
  | zero =>
      intro other offset
      rw [if_neg (by omega)]
      rfl
  | succ remaining ih =>
      intro other offset
      obtain ⟨stored, next⟩ := write_word_spec memory buffer sector i lba drive small (by omega)
        (open_at (by omega))
      have rest := ih (i + 1) (writeWord memory buffer sector i drive) (by omega)
        (fun more => next (by omega)) other offset
      unfold writeWords
      rw [rest, stored]
      by_cases here : other = lba ∧ 2 * i ≤ offset ∧ offset < 2 * (i + 1)
      · rw [if_neg (by omega), if_pos here, if_pos (by omega)]
      · by_cases later : other = lba ∧ 2 * (i + 1) ≤ offset ∧ offset < 512
        · rw [if_pos later, if_pos (by omega)]
        · rw [if_neg later, if_neg here, if_neg (by omega)]

theorem write_sectors_spec (lba buffer : Nat) (memory : Memory) (remaining sector : Nat)
    (drive : Drive) (fits : lba + sector + remaining ≤ sectorCount) :
    ∃ needed after,
      (∀ polls, needed ≤ polls →
        writeSectors polls lba buffer memory remaining sector drive = some after) ∧
      ∀ other offset, after.sectors other offset =
        if lba + sector ≤ other ∧ other < lba + sector + remaining ∧ offset < 512 then
          readByte memory (buffer + (other - lba) * sectorSize + offset)
        else drive.sectors other offset := by
  induction remaining generalizing sector drive with
  | zero =>
      refine ⟨0, drive, fun _ _ => rfl, ?_⟩
      intro other offset
      rw [if_neg (by omega)]
  | succ remaining ih =>
      obtain ⟨issueNeeded, ready, issued, readySectors, transfer⟩ :=
        issue_opens lba sector ataCmdWriteSectors drive (Or.inr rfl)
      have address : u32 (lba + sector) % 2 ^ 28 = lba + sector := by
        have bound : lba + sector + (remaining + 1) ≤ 1048576 := fits
        unfold u32
        omega
      rw [address] at transfer
      have stored := write_words_spec memory buffer sector (lba + sector) 256 0 ready (by omega)
        rfl (fun _ => transfer)
      obtain ⟨restNeeded, after, rest, restStored⟩ := ih (sector + 1)
        (writeWords memory buffer sector 256 0 ready) (by omega)
      refine ⟨issueNeeded + restNeeded, after, ?_, ?_⟩
      · intro polls enough
        unfold writeSectors
        rw [issued polls (by omega)]
        exact rest polls (by omega)
      · intro other offset
        rw [restStored, stored, readySectors]
        by_cases here : other = lba + sector ∧ 2 * 0 ≤ offset ∧ offset < 512
        · have row : other - lba = sector := by omega
          rw [if_neg (by omega), if_pos here, if_pos (by omega), row]
        · by_cases later : lba + (sector + 1) ≤ other ∧ other < lba + (sector + 1) + remaining ∧
              offset < 512
          · rw [if_pos later, if_pos (by omega)]
          · rw [if_neg later, if_neg here, if_neg (by omega)]

theorem in_range_accepted (lba buffer count : Nat) (given : buffer ≠ 0)
    (fits : lba + count ≤ sectorCount) :
    ¬ (buffer = 0 ∨ u32 (lba + count) > sectorCount) := by
  have small : lba + count ≤ 1048576 := fits
  have same : u32 (lba + count) = lba + count := by
    unfold u32
    omega
  rw [same]
  intro refused
  rcases refused with null | beyond
  · exact given null
  · omega

/-- Both calls succeed and every odd byte arrives as zero. -/
theorem write_then_read (lba buffer out count : Nat) (machine : Machine)
    (bufferGiven : buffer ≠ 0) (outGiven : out ≠ 0) (fits : lba + count ≤ sectorCount) :
    ∃ needed written final,
      (∀ polls, needed ≤ polls → diskWrite polls lba buffer count machine = some (0, written) ∧
        diskRead polls lba out count written = some (0, final)) ∧
      readBytes final.memory out (count * sectorSize) =
        window (lowBytes fun i => readByte machine.memory (buffer + i)) 0 (count * sectorSize) ∧
      ∀ other offset, other < lba ∨ lba + count ≤ other →
        final.drive.sectors other offset = machine.drive.sectors other offset := by
  obtain ⟨writeNeeded, drive, writes, stored⟩ :=
    write_sectors_spec lba buffer machine.memory count 0 machine.drive fits
  obtain ⟨readNeeded, final, reads, memory, sectors⟩ :=
    read_sectors_spec lba out count 0 { machine with drive := drive } fits
  refine ⟨writeNeeded + readNeeded, { machine with drive := drive }, final, ?_, ?_, ?_⟩
  · intro polls enough
    unfold diskWrite diskRead
    rw [if_neg (in_range_accepted lba buffer count bufferGiven fits),
      if_neg (in_range_accepted lba out count outGiven fits), writes polls (by omega),
      reads polls (by omega)]
    exact ⟨rfl, rfl⟩
  · have arrived : window (delivered drive.sectors lba) (0 * sectorSize) (count * sectorSize) =
        window (lowBytes fun i => readByte machine.memory (buffer + i)) 0
          (count * sectorSize) := by
      apply window_congr
      intro i bound
      have row : i / sectorSize < count := Nat.div_lt_of_lt_mul (by rwa [Nat.mul_comm])
      have column : i % sectorSize < 512 := Nat.mod_lt i (by decide)
      have parity : i % sectorSize % 2 = i % 2 := by
        unfold sectorSize
        omega
      have split : buffer + (lba + i / sectorSize - lba) * sectorSize + i % sectorSize =
          buffer + i := by
        rw [Nat.add_sub_cancel_left, Nat.add_assoc, Nat.mul_comm, Nat.div_add_mod]
      rw [Nat.zero_mul, Nat.zero_add]
      have held := stored (lba + i / sectorSize) (i % sectorSize)
      rw [if_pos ⟨Nat.le_add_right lba _, Nat.add_lt_add_left row lba, column⟩, split] at held
      unfold delivered lowBytes
      rw [parity, held]
    have short : (window (delivered drive.sectors lba) (0 * sectorSize)
        (count * sectorSize)).length = count * sectorSize := window_length _ _ _
    have size : count * sectorSize ≤ 2 ^ 32 := by
      have small : lba + count ≤ 1048576 := fits
      unfold sectorSize
      omega
    have same := read_write_bytes_same machine.memory (out + 0 * sectorSize)
      (window (delivered drive.sectors lba) (0 * sectorSize) (count * sectorSize))
      (by rw [short]; exact size)
    rw [short, arrived, Nat.zero_mul, Nat.add_zero] at same
    rw [memory, arrived, Nat.zero_mul, Nat.add_zero]
    exact same
  · intro other offset outside
    rw [sectors, stored, if_neg (by omega)]

/-- A write of `count` sectors from `buffer` followed by a read into `out`
gives the bytes back, touches no other sector and reports success twice. -/
def RoundTrip (lba buffer out count : Nat) (machine : Machine) : Prop :=
  ∃ needed written final,
    (∀ polls, needed ≤ polls → diskWrite polls lba buffer count machine = some (0, written) ∧
      diskRead polls lba out count written = some (0, final)) ∧
    readBytes final.memory out (count * sectorSize) =
      readBytes machine.memory buffer (count * sectorSize) ∧
    ∀ other offset, other < lba ∨ lba + count ≤ other →
      final.drive.sectors other offset = machine.drive.sectors other offset

/-- The calls have one outcome, so what `inw` lost is what must not be missed. -/
theorem round_trip_odd_bytes (lba buffer out count : Nat) (machine : Machine)
    (bufferGiven : buffer ≠ 0) (outGiven : out ≠ 0) (fits : lba + count ≤ sectorCount)
    (roundTrip : RoundTrip lba buffer out count machine) (i : Nat)
    (bound : i < count * sectorSize) (odd : i % 2 = 1) :
    readByte machine.memory (buffer + i) = 0 := by
  obtain ⟨needed, written, final, calls, bytes, _⟩ :=
    write_then_read lba buffer out count machine bufferGiven outGiven fits
  obtain ⟨enough, written', final', calls', bytes', _⟩ := roundTrip
  have first := calls (needed + enough) (by omega)
  have second := calls' (needed + enough) (by omega)
  rw [first.1] at second
  have sameWritten : written = written' := congrArg Prod.snd (Option.some.inj second.1)
  rw [← sameWritten, first.2] at second
  have sameFinal : final = final' := congrArg Prod.snd (Option.some.inj second.2)
  rw [← sameFinal, bytes, read_bytes_window, window_eq_iff] at bytes'
  have byte := bytes' i bound
  unfold lowBytes at byte
  rw [if_pos odd] at byte
  exact byte.symm

theorem round_trip_iff_odd_bytes_zero (lba buffer out count : Nat) (machine : Machine)
    (bufferGiven : buffer ≠ 0) (outGiven : out ≠ 0) (fits : lba + count ≤ sectorCount) :
    RoundTrip lba buffer out count machine ↔
      ∀ i, i < count * sectorSize → i % 2 = 1 → readByte machine.memory (buffer + i) = 0 := by
  constructor
  · intro roundTrip
    exact round_trip_odd_bytes lba buffer out count machine bufferGiven outGiven fits roundTrip
  · intro zero
    obtain ⟨needed, written, final, calls, bytes, others⟩ :=
      write_then_read lba buffer out count machine bufferGiven outGiven fits
    refine ⟨needed, written, final, calls, ?_, others⟩
    rw [bytes, read_bytes_window, window_eq_iff]
    intro i bound
    unfold lowBytes
    by_cases odd : i % 2 = 1
    · rw [if_pos odd, zero i bound odd]
    · rw [if_neg odd]

def blankMachine (memory : Memory) : Machine where
  memory := memory
  drive := {
    sectors := fun _ _ => 0
    lbaLo := 0
    lbaMid := 0
    lbaHi := 0
    drive := 0
    transfer := .idle
    busy := 3
    pending := 0
    delays := fun clock => clock % 5
    clock := 0 }

theorem round_trip_of_text :
    RoundTrip 7 0x300000 0x400000 2
        (blankMachine fun address => if address % 2 = 0 then 65 else 0) ↔
      ∀ i, i < 2 * sectorSize → i % 2 = 1 →
        readByte (blankMachine fun address => if address % 2 = 0 then 65 else 0).memory
          (0x300000 + i) = 0 :=
  round_trip_iff_odd_bytes_zero 7 0x300000 0x400000 2
    (blankMachine fun address => if address % 2 = 0 then 65 else 0) (by decide) (by decide)
    (by decide)

/-- One sector of 0xFF bytes does not come back. -/
theorem round_trip_loses_high_bytes :
    ¬ RoundTrip 0 0x300000 0x400000 1 (blankMachine fun _ => 0xFF) := by
  intro roundTrip
  have zero := round_trip_odd_bytes 0 0x300000 0x400000 1 (blankMachine fun _ => 0xFF)
    (by decide) (by decide) (by decide) roundTrip 1 (by decide) rfl
  exact absurd zero (by decide)

end LumenOS.AtaDisk
