import LumenOS.StringModel

/-!
# The FAT32 reader of `fat32.c` and its memory disk

The sector primitive is a parameter: the macro `disk_read` hands its three
arguments to it by position, and every caller ignores the code it returns.
Buffers are addresses in flat memory, `struct fat32_bpb` and `struct
fat_dirent` are fields at fixed offsets. A loop takes the number of rounds it
may make; a division by zero stops the machine.
-/

namespace LumenOS.Fat32Model

open LumenOS.ByteMemory LumenOS.StringModel

set_option autoImplicit false

/-- `current_disk->read` and `current_disk->write`, their arguments in the
order they are passed. -/
abbrev DiskRead := Nat → Nat → Nat → Memory → Int × Memory

inductive Stop where
  | divisionByZero
  | stillRunning
  deriving DecidableEq

def fatEoc : Nat := 0x0FFFFFF8

structure MemdiskCtx where
  base : Nat
  sectorSize : Nat
  numSectors : Nat

def fsUseMemdisk (fsimgAddr fsimgSize : Nat) : MemdiskCtx where
  base := fsimgAddr
  sectorSize := 512
  numSectors := fsimgSize / 512

def memdiskRead (ctx : MemdiskCtx) : DiskRead := fun sector buf count memory =>
  if u32 (sector + count) > ctx.numSectors then (-1, memory)
  else (0, memcpy memory buf (ctx.base + u32 (sector * ctx.sectorSize))
    (u32 (count * ctx.sectorSize)))

def memdiskWrite (ctx : MemdiskCtx) : DiskRead := fun sector buf count memory =>
  if u32 (sector + count) > ctx.numSectors then (-1, memory)
  else (0, memcpy memory (ctx.base + u32 (sector * ctx.sectorSize)) buf
    (u32 (count * ctx.sectorSize)))

structure Fs where
  partLba : Nat
  fatLba : Nat
  dataLba : Nat
  fatSectors : Nat
  sectorsPerCluster : Nat
  bytesPerCluster : Nat
  rootCluster : Nat

structure File where
  firstCluster : Nat
  size : Nat
  pos : Nat
  isDir : Bool
  deriving DecidableEq

def load8 (memory : Memory) (address : Nat) : Nat := (readByte memory address).toNat

/-- The members of the packed boot sector that the code reads. -/
structure Bpb where
  bytesPerSector : Nat
  sectorsPerCluster : Nat
  reservedSectors : Nat
  fatCount : Nat
  fatSize32 : Nat
  rootCluster : Nat
  deriving DecidableEq

def bpbAt (memory : Memory) (bpb : Nat) : Bpb where
  bytesPerSector := load16 memory (bpb + 11)
  sectorsPerCluster := load8 memory (bpb + 13)
  reservedSectors := load16 memory (bpb + 14)
  fatCount := load8 memory (bpb + 16)
  fatSize32 := load32 memory (bpb + 36)
  rootCluster := load32 memory (bpb + 44)

def mountedFs (partLba : Nat) (bpb : Bpb) : Fs where
  partLba := partLba
  fatLba := u32 (partLba + bpb.reservedSectors)
  fatSectors := bpb.fatSize32
  dataLba := u32 (u32 (partLba + bpb.reservedSectors) + u32 (bpb.fatCount * bpb.fatSize32))
  sectorsPerCluster := bpb.sectorsPerCluster
  bytesPerCluster := u32 (bpb.sectorsPerCluster * 512)
  rootCluster := bpb.rootCluster

/-- The code, what is stored through `out`, and the memory afterwards. The
local `bpb` starts with whatever the stack holds. It has 90 bytes and is given
a sector of 512: the locals, the return address and `out` behind it are values
here and not places in memory, so that they survive the transfer, which in the
compiled function overwrites them. -/
def fat32Mount (diskRead : DiskRead) (bpb partLba : Nat) (memory : Memory) :
    Int × Option Fs × Memory :=
  let memory := (diskRead partLba 1 bpb memory).2
  if (bpbAt memory bpb).fatSize32 = 0 then (-1, none, memory)
  else if (bpbAt memory bpb).bytesPerSector ≠ 512 then (-1, none, memory)
  else (0, some (mountedFs partLba (bpbAt memory bpb)), memory)

def clusterToLba (fs : Fs) (cluster : Nat) : Nat :=
  u32 (fs.dataLba + u32 (u32 (cluster + (2 ^ 32 - 2)) * fs.sectorsPerCluster))

/-- `sector` is the address of the static sector buffer. -/
def fatNext (diskRead : DiskRead) (fs : Fs) (sector cluster : Nat) (memory : Memory) :
    Nat × Memory :=
  let off := u32 (cluster * 4)
  let memory := (diskRead (u32 (fs.fatLba + off / 512)) 1 sector memory).2
  (load32 memory (sector + off % 512) &&& 0x0FFFFFFF, memory)

def fat32OpenRoot (fs : Fs) : Int × File :=
  (0, { firstCluster := fs.rootCluster, size := 0, pos := 0, isDir := true })

structure Dirent where
  name : List Byte
  attr : Nat
  clusterHi : Nat
  clusterLo : Nat
  size : Nat

def direntAt (memory : Memory) (entry : Nat) : Dirent where
  name := readBytes memory entry 11
  attr := load8 memory (entry + 11)
  clusterHi := load16 memory (entry + 20)
  clusterLo := load16 memory (entry + 26)
  size := load32 memory (entry + 28)

def direntFile (entry : Dirent) : File where
  firstCluster := u32 ((entry.clusterHi <<< 16) ||| entry.clusterLo)
  size := entry.size
  pos := 0
  isDir := entry.attr &&& 0x10 != 0

/-- The value of a `char` in an expression: gcc has it signed on x86. -/
def charValue (byte : Byte) : Int :=
  if byte.toNat < 128 then byte.toNat else (byte.toNat : Int) - 256

inductive Scan where
  | endOfDirectory
  | found (file : File)
  | exhausted
  deriving DecidableEq

/-- The loop over the entries of one cluster, `remaining` of them from `i` on. -/
def scanEntries (memory : Memory) (buf : Nat) (name83 : List Byte) : Nat → Nat → Scan
  | 0, _ => .exhausted
  | remaining + 1, i =>
      let entry := direntAt memory (buf + 32 * i)
      let first := charValue (readByte memory (buf + 32 * i))
      if first = 0x00 then .endOfDirectory
      else if first = 0xE5 then scanEntries memory buf name83 remaining (i + 1)
      else if entry.attr = 0x0F then scanEntries memory buf name83 remaining (i + 1)
      else if memcmp entry.name name83 = 0 then .found (direntFile entry)
      else scanEntries memory buf name83 remaining (i + 1)

def findFrom (diskRead : DiskRead) (fs : Fs) (sector buf : Nat) (name83 : List Byte) :
    Nat → Nat → Memory → Except Stop (Int × Option File × Memory)
  | 0, _, _ => .error .stillRunning
  | fuel + 1, cl, memory =>
      if cl < fatEoc then
        let memory := (diskRead (clusterToLba fs cl) fs.sectorsPerCluster buf memory).2
        match scanEntries memory buf name83 (fs.bytesPerCluster / 32) 0 with
        | .endOfDirectory => .ok (-1, none, memory)
        | .found file => .ok (0, some file, memory)
        | .exhausted =>
            let next := fatNext diskRead fs sector cl memory
            findFrom diskRead fs sector buf name83 fuel next.1 next.2
      else .ok (-1, none, memory)

def fat32Find (diskRead : DiskRead) (fs : Fs) (sector buf fuel : Nat) (dir : File)
    (name83 : List Byte) (memory : Memory) : Except Stop (Int × Option File × Memory) :=
  findFrom diskRead fs sector buf name83 fuel dir.firstCluster memory

def skipClusters (diskRead : DiskRead) (fs : Fs) (sector : Nat) :
    Nat → Nat → Memory → Nat × Memory
  | 0, cl, memory => (cl, memory)
  | skip + 1, cl, memory =>
      let next := fatNext diskRead fs sector cl memory
      skipClusters diskRead fs sector skip next.1 next.2

/-- The copying loop; the result is what remains and the memory. -/
def readFrom (diskRead : DiskRead) (fs : Fs) (sector buf : Nat) :
    Nat → Nat → Nat → Nat → Nat → Memory → Except Stop (Nat × Memory)
  | 0, _, _, _, _, _ => .error .stillRunning
  | fuel + 1, cl, off, dst, remaining, memory =>
      if remaining ≠ 0 ∧ cl < fatEoc then
        let memory := (diskRead (clusterToLba fs cl) fs.sectorsPerCluster buf memory).2
        let left := u32 (fs.bytesPerCluster + (2 ^ 32 - off))
        let copy := if left > remaining then remaining else left
        let memory := memcpy memory dst (buf + off) copy
        let next := fatNext diskRead fs sector cl memory
        readFrom diskRead fs sector buf fuel next.1 0 (dst + copy) (remaining - copy) next.2
      else .ok (remaining, memory)

def fat32Read (diskRead : DiskRead) (fs : Fs) (sector buf fuel : Nat) (file : File)
    (offset size out : Nat) (memory : Memory) : Except Stop (Nat × Memory) :=
  if offset ≥ file.size then .ok (0, memory)
  else
    let size := if u32 (offset + size) > file.size then file.size - offset else size
    if fs.bytesPerCluster = 0 then .error .divisionByZero
    else
      let skipped := skipClusters diskRead fs sector (offset / fs.bytesPerCluster)
        file.firstCluster memory
      (readFrom diskRead fs sector buf fuel skipped.1 (offset % fs.bytesPerCluster) out size
        skipped.2).map fun result => (size - result.1, result.2)

/-- A primitive that delivers the sectors its callers mean: `count` sectors
from `lba` on, into `buf`. -/
def deliverSectors (disk : Nat → Byte) : DiskRead := fun lba count buf memory =>
  (0, writeBytes memory buf (window disk (lba * 512) (count * 512)))

end LumenOS.Fat32Model
