import LumenOS.ByteMemory

/-!
# What a FAT32 volume is

A volume is a byte image that begins with its boot sector. Clusters are
numbered from two; the table holds one word for each, of which 28 bits link to
the next cluster of the same chain. Directories and files are chains, and a
directory's entries are 32-byte records that end at the first zero byte.
-/

namespace LumenOS.Fat32Volume

open LumenOS.ByteMemory

set_option autoImplicit false

structure Volume where
  length : Nat
  bytes : Nat → Byte

namespace Volume

variable (volume : Volume)

def field (offset width : Nat) : Nat := decodeLE (window volume.bytes offset width)

def bytesPerSector : Nat := volume.field 11 2
def sectorsPerCluster : Nat := volume.field 13 1
def reservedSectors : Nat := volume.field 14 2
def fatCount : Nat := volume.field 16 1
def fatSize32 : Nat := volume.field 36 4
def rootCluster : Nat := volume.field 44 4

def fatLba : Nat := volume.reservedSectors
def dataLba : Nat := volume.fatLba + volume.fatCount * volume.fatSize32
def clusterBytes : Nat := volume.sectorsPerCluster * 512

def clusterStart (cluster : Nat) : Nat :=
  volume.dataLba * 512 + (cluster - 2) * volume.clusterBytes

/-- A cluster that the table has a word for and the image has room for. -/
def InRange (cluster : Nat) : Prop :=
  2 ≤ cluster ∧ cluster < 0x0FFFFFF7 ∧ 4 * cluster + 4 ≤ volume.fatSize32 * 512 ∧
    volume.clusterStart cluster + volume.clusterBytes ≤ volume.length

def link (cluster : Nat) : Nat := volume.field (volume.fatLba * 512 + 4 * cluster) 4 % 2 ^ 28

/-- The clusters met from `first` on, up to an end mark. -/
def Chain : Nat → List Nat → Prop
  | first, [] => 0x0FFFFFF8 ≤ first
  | first, cluster :: clusters => first = cluster ∧ volume.InRange cluster ∧
      Chain (volume.link cluster) clusters

def content (clusters : List Nat) : List Byte :=
  clusters.flatMap fun cluster => window volume.bytes (volume.clusterStart cluster)
    volume.clusterBytes

end Volume

structure Record where
  name : List Byte
  attr : Nat
  firstCluster : Nat
  size : Nat
  deriving DecidableEq

def record (bytes : List Byte) : Record where
  name := bytes.take 11
  attr := decodeLE ((bytes.drop 11).take 1)
  firstCluster := decodeLE ((bytes.drop 26).take 2) + 2 ^ 16 * decodeLE ((bytes.drop 20).take 2)
  size := decodeLE ((bytes.drop 28).take 4)

/-- The records of a directory before the first that starts with a zero byte. -/
def records : Nat → List Byte → List Record
  | 0, _ => []
  | count + 1, bytes =>
      if bytes.head? = some 0 then []
      else record (bytes.take 32) :: records count (bytes.drop 32)

def Record.IsLive (entry : Record) : Prop :=
  entry.name.head? ≠ some 0xE5 ∧ entry.attr &&& 0x08 = 0

def Record.IsFile (entry : Record) : Prop := entry.IsLive ∧ entry.attr &&& 0x10 = 0

instance (entry : Record) : Decidable entry.IsLive := inferInstanceAs (Decidable (_ ∧ _))

namespace Volume

variable (volume : Volume)

def directory (clusters : List Nat) : List Record :=
  records (clusters.length * (volume.clusterBytes / 32)) (volume.content clusters)

/-- A chain that holds `size` bytes; nothing is stored for an empty file. -/
def Holds (first size : Nat) (clusters : List Nat) : Prop :=
  (size = 0 ∧ first = 0 ∧ clusters = []) ∨
    (volume.Chain first clusters ∧ size ≤ clusters.length * volume.clusterBytes)

def RootFile (name content : List Byte) : Prop :=
  ∃ root entry clusters, volume.Chain volume.rootCluster root ∧
    entry ∈ volume.directory root ∧ entry.IsFile ∧ entry.name = name ∧
    volume.Holds entry.firstCluster entry.size clusters ∧
    content = (volume.content clusters).take entry.size

structure WellFormed : Prop where
  whole : volume.length % 512 = 0
  sectors : volume.bytesPerSector = 512
  small : 1 ≤ volume.sectorsPerCluster ∧ volume.sectorsPerCluster ≤ 8
  reserved : 1 ≤ volume.reservedSectors
  tables : 1 ≤ volume.fatCount ∧ 1 ≤ volume.fatSize32
  inside : volume.dataLba * 512 ≤ volume.length
  root : ∃ clusters, volume.Chain volume.rootCluster clusters ∧ clusters ≠ []
  files : ∀ root, volume.Chain volume.rootCluster root → ∀ entry ∈ volume.directory root,
    entry.IsFile → ∃ clusters, volume.Holds entry.firstCluster entry.size clusters
  distinct : ∀ root, volume.Chain volume.rootCluster root →
    ((volume.directory root).filter fun entry => entry.IsLive).Pairwise
      fun left right => left.name ≠ right.name

variable {volume}

/-- A cluster has one successor, so a chain is determined by where it starts. -/
theorem chain_unique {first : Nat} {left right : List Nat} (leftChain : volume.Chain first left)
    (rightChain : volume.Chain first right) : left = right := by
  induction left generalizing first right with
  | nil =>
      cases right with
      | nil => rfl
      | cons cluster clusters =>
          have marked : 0x0FFFFFF8 ≤ first := leftChain
          obtain ⟨rfl, inRange, _⟩ := rightChain
          have bounded := inRange.2.1
          omega
  | cons cluster clusters ih =>
      obtain ⟨rfl, inRange, rest⟩ := leftChain
      cases right with
      | nil =>
          have marked : 0x0FFFFFF8 ≤ first := rightChain
          have bounded := inRange.2.1
          omega
      | cons other others =>
          obtain ⟨rfl, _, otherRest⟩ := rightChain
          rw [ih rest otherRest]

end Volume

end LumenOS.Fat32Volume
