import LumenOS.Fat32Model
import LumenOS.Fat32Volume

/-!
# The FAT32 reader over the memory disk, as it is wired

Every caller writes `disk_read(lba, count, buffer)`, and the macro passes the
three by position to a function that takes `(sector, buf, count)`. The count
that arrives is the address of a buffer. The kernel is linked at two megabytes
and above, so the range check refuses it, nothing is read, and the caller goes
on with what its buffer happened to hold.
-/

namespace LumenOS.Fat32Wiring

open LumenOS.ByteMemory LumenOS.StringModel LumenOS.Fat32Model LumenOS.Fat32Volume

set_option autoImplicit false

def kernelStart : Nat := 0x200000

/-- A machine with the image installed: where the image, the buffers of the
driver and nothing else of its concern lie, and what memory holds at first. -/
structure Setup (volume : Volume) where
  base : Nat
  bpb : Nat
  sector : Nat
  findBuf : Nat
  readBuf : Nat
  memory : Memory
  imageFits : base + volume.length ≤ 2 ^ 32
  installed : ∀ i, i < volume.length → readByte memory (base + i) = volume.bytes i
  inKernel : kernelStart ≤ bpb ∧ kernelStart ≤ sector ∧ kernelStart ≤ findBuf ∧
    kernelStart ≤ readBuf
  buffersFit : bpb + 90 ≤ 2 ^ 32 ∧ sector + 512 ≤ 2 ^ 32 ∧ findBuf + 4096 ≤ 2 ^ 32 ∧
    readBuf + 4096 ≤ 2 ^ 32
  offImage : Disjoint bpb 90 base volume.length ∧ Disjoint sector 512 base volume.length ∧
    Disjoint findBuf 4096 base volume.length ∧ Disjoint readBuf 4096 base volume.length
  apart : Disjoint sector 512 bpb 90 ∧ Disjoint sector 512 findBuf 4096 ∧
    Disjoint sector 512 readBuf 4096

variable {volume : Volume}

def Setup.diskRead (setup : Setup volume) : DiskRead :=
  memdiskRead (fsUseMemdisk setup.base volume.length)

structure Setup.Output (setup : Setup volume) (out count : Nat) : Prop where
  inKernel : kernelStart ≤ out
  fits : out + count ≤ 2 ^ 32
  offImage : Disjoint out count setup.base volume.length
  offSector : Disjoint out count setup.sector 512
  offFindBuf : Disjoint out count setup.findBuf 4096
  offReadBuf : Disjoint out count setup.readBuf 4096

/-- The mount gives the volume's geometry, and every file of the root
directory is found and read back whole. -/
def EndToEnd (setup : Setup volume) : Prop :=
  ∃ fs mounted, fat32Mount setup.diskRead setup.bpb 0 setup.memory = (0, some fs, mounted) ∧
    fs.fatLba = volume.fatLba ∧ fs.dataLba = volume.dataLba ∧
    fs.sectorsPerCluster = volume.sectorsPerCluster ∧ fs.rootCluster = volume.rootCluster ∧
    ∀ name content out, volume.RootFile name content → setup.Output out content.length →
      ∃ fuel file found final,
        fat32Find setup.diskRead fs setup.sector setup.findBuf fuel (fat32OpenRoot fs).2 name
          mounted = .ok (0, some file, found) ∧
        fat32Read setup.diskRead fs setup.sector setup.readBuf fuel file 0 file.size out found =
          .ok (content.length, final) ∧
        readBytes final out content.length = content

/-- The image leaves the two megabytes below the kernel's link address, or as
much elsewhere, to the rest of the machine. -/
def Installable (volume : Volume) : Prop := volume.length + kernelStart ≤ 2 ^ 32

theorem memdisk_refuses_address (ctx : MemdiskCtx) (sector buf address : Nat) (memory : Memory)
    (beyond : ctx.numSectors < u32 (sector + address)) :
    memdiskRead ctx sector buf address memory = (-1, memory) := by
  unfold memdiskRead
  rw [if_pos beyond]

/-- The mount decides by what the stack held at `bpb` before the call. -/
theorem mount_reads_stack (ctx : MemdiskCtx) (bpb : Nat) (memory : Memory)
    (beyond : ctx.numSectors < u32 bpb) :
    fat32Mount (memdiskRead ctx) bpb 0 memory =
      if (bpbAt memory bpb).fatSize32 = 0 then (-1, none, memory)
      else if (bpbAt memory bpb).bytesPerSector ≠ 512 then (-1, none, memory)
      else (0, some (mountedFs 0 (bpbAt memory bpb)), memory) := by
  have refused := memdisk_refuses_address ctx 0 1 bpb memory (by rwa [Nat.zero_add])
  unfold fat32Mount
  rw [refused]

theorem mount_fails_on_zero_stack (ctx : MemdiskCtx) (bpb : Nat) (memory : Memory)
    (beyond : ctx.numSectors < u32 bpb)
    (zero : ∀ i, i < 4 → readByte memory (bpb + 36 + i) = 0) :
    fat32Mount (memdiskRead ctx) bpb 0 memory = (-1, none, memory) := by
  have stale : readBytes memory (bpb + 36) 4 = [0, 0, 0, 0] :=
    @read_bytes_congr memory (fun _ => 0) (bpb + 36) 0 4 zero
  have noTable : (bpbAt memory bpb).fatSize32 = 0 := by
    change decodeLE (readBytes memory (bpb + 36) 4) = 0
    rw [stale]
    rfl
  rw [mount_reads_stack ctx bpb memory beyond, if_pos noTable]

/-- Wherever the image and the buffers lie: if the address of `bpb` is past
the last sector, there are stack bytes with which the mount fails. -/
theorem placement_can_fail (setup : Setup volume) (beyond : volume.length / 512 < setup.bpb) :
    ∃ other : Setup volume, other.base = setup.base ∧ other.bpb = setup.bpb ∧
      (∀ address, (∀ i, i < 90 → u32 address ≠ u32 (setup.bpb + i)) →
        readByte other.memory address = readByte setup.memory address) ∧
      (fat32Mount other.diskRead other.bpb 0 other.memory).1 = -1 := by
  let memory := writeBytes setup.memory setup.bpb (window (fun _ => 0) 0 90)
  have length : (window (fun _ => 0) 0 90).length = 90 := window_length _ _ _
  have outside : ∀ address, (∀ i, i < 90 → u32 address ≠ u32 (setup.bpb + i)) →
      readByte memory address = readByte setup.memory address := by
    intro address off
    apply write_bytes_outside
    rw [length]
    exact off
  let other : Setup volume := { setup with
    memory := memory
    installed := by
      intro i bound
      rw [outside]
      · exact setup.installed i bound
      · intro j jBound same
        exact setup.offImage.1 j i jBound bound same.symm }
  refine ⟨other, rfl, rfl, outside, ?_⟩
  have fits := setup.buffersFit.1
  have failed := mount_fails_on_zero_stack (fsUseMemdisk setup.base volume.length) setup.bpb memory
    ?_ ?_
  · exact congrArg Prod.fst failed
  · have whole : u32 setup.bpb = setup.bpb := by
      unfold u32
      omega
    rw [whole]
    exact beyond
  · intro i bound
    have stored := write_bytes_inside setup.memory setup.bpb (window (fun _ => 0) 0 90) (36 + i)
      (by rw [length]; omega) (by rw [length]; decide)
    have zero := window_get (fun _ => 0) 0 90 (36 + i) (by omega)
    obtain ⟨_, value⟩ := List.getElem?_eq_some_iff.mp zero
    rw [Nat.add_assoc, stored]
    exact value

def lowBase : Nat := 0x1000

/-- The image near the bottom of memory, the buffers at the very top, zero
everywhere else. -/
def zeroSetup (volume : Volume) (installable : Installable volume) : Setup volume where
  base := lowBase
  bpb := 0xFFFF0000
  sector := 0xFFFF1000
  findBuf := 0xFFFF2000
  readBuf := 0xFFFF4000
  memory := fun address =>
    if lowBase ≤ address ∧ address < lowBase + volume.length then volume.bytes (address - lowBase)
    else 0
  imageFits := by
    unfold Installable kernelStart at installable
    unfold lowBase
    omega
  installed := by
    intro i bound
    unfold Installable kernelStart at installable
    have whole : u32 (lowBase + i) = lowBase + i := by
      unfold u32 lowBase
      omega
    have inside : lowBase ≤ lowBase + i ∧ lowBase + i < lowBase + volume.length :=
      ⟨Nat.le_add_right lowBase i, Nat.add_lt_add_left bound lowBase⟩
    unfold readByte
    rw [whole]
    dsimp only
    rw [if_pos inside, Nat.add_sub_cancel_left]
  inKernel := by decide
  buffersFit := by decide
  offImage := by
    unfold Installable kernelStart at installable
    have below : lowBase + volume.length ≤ 0xFFFF0000 := by
      unfold lowBase
      omega
    have high : ∀ address count, 0xFFFF0000 ≤ address → address + count ≤ 2 ^ 32 →
        Disjoint address count lowBase volume.length := by
      intro address count above fits
      apply disjoint_of_separate
      · exact fits
      · omega
      · omega
    exact ⟨high _ _ (by decide) (by decide), high _ _ (by decide) (by decide),
      high _ _ (by decide) (by decide), high _ _ (by decide) (by decide)⟩
  apart := by
    refine ⟨?_, ?_, ?_⟩
    · apply disjoint_of_separate <;> decide
    · apply disjoint_of_separate <;> decide
    · apply disjoint_of_separate <;> decide

theorem zero_setup_not_mounted (volume : Volume) (installable : Installable volume) :
    (fat32Mount (zeroSetup volume installable).diskRead (zeroSetup volume installable).bpb 0
      (zeroSetup volume installable).memory).1 = -1 := by
  unfold Installable kernelStart at installable
  have failed := mount_fails_on_zero_stack (fsUseMemdisk lowBase volume.length) 0xFFFF0000
    (zeroSetup volume installable).memory ?_ ?_
  · exact congrArg Prod.fst failed
  · change volume.length / 512 < 0xFFFF0000
    omega
  · intro i bound
    have whole : u32 (0xFFFF0000 + 36 + i) = 0xFFFF0000 + 36 + i := by
      unfold u32
      omega
    unfold readByte
    rw [whole]
    apply if_neg
    unfold lowBase
    omega

/-- No volume that can be installed is read end to end on every machine. -/
theorem no_volume_read_end_to_end (volume : Volume) (_ : volume.WellFormed)
    (installable : Installable volume) : ¬ ∀ setup : Setup volume, EndToEnd setup := by
  intro always
  obtain ⟨fs, mounted, success, _⟩ := always (zeroSetup volume installable)
  have failed := zero_setup_not_mounted volume installable
  rw [success] at failed
  change (0 : Int) = -1 at failed
  omega

/-- A boot sector, a table, a root directory with one file of five bytes. -/
def sampleStored : List (Nat × Byte) :=
  [(12, 2), (13, 1), (14, 1), (16, 1), (36, 1), (44, 2),
   (520, 0xFF), (521, 0xFF), (522, 0xFF), (523, 0x0F),
   (524, 0xFF), (525, 0xFF), (526, 0xFF), (527, 0x0F),
   (1024, 83), (1025, 84), (1026, 65), (1027, 71), (1028, 69), (1029, 49), (1030, 32),
   (1031, 32), (1032, 66), (1033, 73), (1034, 78), (1035, 0x20), (1050, 3), (1052, 5),
   (1536, 104), (1537, 101), (1538, 108), (1539, 108), (1540, 111)]

def sampleVolume : Volume where
  length := 2048
  bytes := fun offset => (sampleStored.lookup offset).getD 0

def sampleRecord : Record where
  name := [83, 84, 65, 71, 69, 49, 32, 32, 66, 73, 78]
  attr := 0x20
  firstCluster := 3
  size := 5

theorem sample_root : sampleVolume.Chain sampleVolume.rootCluster [2] :=
  ⟨rfl, by unfold Volume.InRange; decide, by change 0x0FFFFFF8 ≤ sampleVolume.link 2; decide⟩

theorem sample_directory : sampleVolume.directory [2] = [sampleRecord] := by
  decide +kernel

theorem sample_file : sampleVolume.Holds 3 5 [3] :=
  Or.inr ⟨⟨rfl, by unfold Volume.InRange; decide,
    by change 0x0FFFFFF8 ≤ sampleVolume.link 3; decide⟩, by decide⟩

theorem sample_well_formed : sampleVolume.WellFormed where
  whole := by decide
  sectors := by decide
  small := by decide
  reserved := by decide
  tables := by decide
  inside := by decide
  root := ⟨[2], sample_root, by decide⟩
  files := by
    intro root chain entry member _
    rw [Volume.chain_unique chain sample_root, sample_directory] at member
    rw [List.mem_singleton.mp member]
    exact ⟨[3], sample_file⟩
  distinct := by
    intro root chain
    rw [Volume.chain_unique chain sample_root, sample_directory]
    exact List.pairwise_singleton _ _

theorem sample_installable : Installable sampleVolume := by
  unfold Installable
  decide

theorem sample_not_read_on_every_machine :
    ¬ ∀ setup : Setup sampleVolume, EndToEnd setup :=
  no_volume_read_end_to_end sampleVolume sample_well_formed sample_installable

/-- The sample volume does not even mount with a zeroed stack. -/
theorem sample_not_mounted :
    sampleVolume.WellFormed ∧
      ¬ EndToEnd (zeroSetup sampleVolume sample_installable) := by
  refine ⟨sample_well_formed, ?_⟩
  intro works
  obtain ⟨fs, mounted, success, _⟩ := works
  have failed := zero_setup_not_mounted sampleVolume sample_installable
  rw [success] at failed
  change (0 : Int) = -1 at failed
  omega

end LumenOS.Fat32Wiring
