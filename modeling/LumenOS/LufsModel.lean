import LumenOS.FileTree

/-!
# The LuFS tools `mkfs.py` and `rdfs.py`

Python integers are natural numbers here, `struct.pack` has no result where a
number does not fit its field, a dictionary is the list of its assignments,
and a recursive function takes the depth of recursion it may use. The image is
the byte string the writer leaves in its file.
-/

namespace LumenOS.LufsModel

open LumenOS.ByteMemory LumenOS.FileTree

set_option autoImplicit false

def sectorSize : Nat := 512
def entrySize : Nat := 49

section Writer

structure Entry where
  name : Text
  isfile : Bool
  parent : Text
  content : List Byte

def Entry.size (entry : Entry) : Nat := if entry.isfile then entry.content.length else 0

/-- `os.path.join(parent, name) if parent != "" else name`. -/
def childPath (parent name : Text) : Text := if parent ≠ [] then osJoin parent name else name

/-- The items of the directory whose path from the root is `relPath`. -/
def entriesBelow (relPath : Text) : Listing → List Entry
  | .nil => []
  | .file name content rest => ⟨name, true, relPath, content⟩ :: entriesBelow relPath rest
  | .dir name children rest =>
      (⟨name, false, relPath, []⟩ :: entriesBelow (childPath relPath name) children) ++
        entriesBelow relPath rest

def rootEntry : Entry := ⟨[], false, [], []⟩

def getEntriesFromDir (tree : Listing) : List Entry := rootEntry :: entriesBelow [] tree

/-- `dir_tree.get(path, [])`. -/
def dirTree (entries : List Entry) (path : Text) : List Entry :=
  entries.filter fun entry => entry.parent = path

/-- The value of the last assignment to a key. -/
def dictGet {κ ν : Type} [DecidableEq κ] (items : List (κ × ν)) (key : κ) : Option ν :=
  (items.reverse.find? fun item => item.1 = key).map Prod.snd

/-- The set of paths and the list of directories; the entries that go with
the paths in the list are never used. -/
structure Order where
  visited : List Text
  dirOrder : List Text

def collectEntry (collectDirs : Text → Order → Option Order) (parent : Text) (order : Order)
    (entry : Entry) : Option Order :=
  if entry.isfile then some order
  else
    let dpath := childPath parent entry.name
    if dpath ∈ order.visited then some order
    else collectDirs dpath
      { visited := dpath :: order.visited, dirOrder := order.dirOrder ++ [dpath] }

def collectDirs (entries : List Entry) : Nat → Text → Order → Option Order
  | 0, _, _ => none
  | fuel + 1, parent, order =>
      (dirTree entries parent).foldlM (collectEntry (collectDirs entries fuel) parent) order

/-- `dir_offsets`, and `cur_offset` after the loop. -/
def planTables (entries : List Entry) :
    List Text → Nat → List (Text × (Nat × Nat)) × Nat
  | [], curOffset => ([], curOffset)
  | dpath :: rest, curOffset =>
      let size := (dirTree entries dpath).length * entrySize
      let planned := planTables entries rest (curOffset + size)
      ((dpath, (curOffset, size)) :: planned.1, planned.2)

/-- `math.ceil(n / SECTOR_SIZE) * SECTOR_SIZE`. -/
def ceilSector (n : Nat) : Nat := (n + (sectorSize - 1)) / sectorSize * sectorSize

structure Span where
  startBlock : Nat
  endBlock : Nat
  startByte : Nat
  endByte : Nat
  deriving DecidableEq

def fileSpan (offset size : Nat) : Span where
  startBlock := offset / sectorSize
  endBlock := if size > 0 then (offset + size - 1) / sectorSize else offset / sectorSize
  startByte := offset % sectorSize
  endByte := if size > 0 then (offset + size - 1) % sectorSize else offset % sectorSize

/-- `file_offsets` and `file_data`. -/
def planFiles (fileDataOffset : Nat) :
    List Entry → List Byte → List ((Text × Text) × Span) × List Byte
  | [], fileData => ([], fileData)
  | entry :: rest, fileData =>
      if entry.isfile then
        let planned := planFiles fileDataOffset rest (fileData ++ entry.content)
        (((entry.parent, entry.name),
          fileSpan (fileDataOffset + fileData.length) entry.size) :: planned.1, planned.2)
      else planFiles fileDataOffset rest fileData

def ljust (width : Nat) (bytes : List Byte) : List Byte :=
  bytes ++ List.replicate (width - bytes.length) 0

def packEntry (name : Text) (size : Nat) (isfile : Bool) (span : Span) : Option (List Byte) :=
  if size < 2 ^ 32 ∧ span.startBlock < 2 ^ 32 ∧ span.endBlock < 2 ^ 32 ∧
      span.startByte < 2 ^ 16 ∧ span.endByte < 2 ^ 16 then
    some (ljust 32 ((Utf8.encode name).take 32) ++ encodeLE 4 size ++
      [if isfile then 1 else 0] ++ encodeLE 4 span.startBlock ++ encodeLE 4 span.endBlock ++
      encodeLE 2 span.startByte ++ encodeLE 2 span.endByte)
  else none

def packRow (entries : List Entry) (dirOffsets : List (Text × (Nat × Nat)))
    (fileOffsets : List ((Text × Text) × Span)) (dpath : Text) (entry : Entry) :
    Option (List Byte) :=
  if entry.isfile then
    (dictGet fileOffsets (dpath, entry.name)).bind fun span =>
      packEntry entry.name entry.size true span
  else
    let child := childPath dpath entry.name
    if (dirTree entries child).length = 0 then packEntry entry.name 0 false ⟨0, 0, 0, 0⟩
    else (dictGet dirOffsets child).bind fun table =>
      let last := table.1 + table.2 - 1
      let startByte := if dpath = [] ∧ entry.name = [] then entrySize else table.1 % sectorSize
      packEntry entry.name 0 false
        ⟨table.1 / sectorSize, last / sectorSize, startByte, last % sectorSize⟩

/-- The parts one after the other, if all of them have a result. -/
def joinAll {α : Type} (pack : α → Option (List Byte)) : List α → Option (List Byte)
  | [] => some []
  | first :: rest =>
      (pack first).bind fun bytes => (joinAll pack rest).map fun more => bytes ++ more

def packTable (entries : List Entry) (dirOffsets : List (Text × (Nat × Nat)))
    (fileOffsets : List ((Text × Text) × Span)) (dpath : Text) : Option (List Byte) :=
  joinAll (packRow entries dirOffsets fileOffsets dpath) (dirTree entries dpath)

/-- `struct.pack("<4sI", b"LuFS", count)`, filled up to a sector. -/
def packHeader (count : Nat) : Option (List Byte) :=
  if count < 2 ^ 32 then
    some ([0x4C, 0x75, 0x46, 0x53] ++ encodeLE 4 count ++ List.replicate (sectorSize - 8) 0)
  else none

/-- The image cut in sectors, the last one filled up: what `write_sector`
leaves in the file. -/
def writeSectors : Nat → List Byte → List Byte
  | 0, _ => []
  | fuel + 1, memDisk =>
      if memDisk = [] then []
      else ljust sectorSize (memDisk.take sectorSize) ++ writeSectors fuel (memDisk.drop sectorSize)

def makefs (fuel : Nat) (tree : Listing) : Option (List Byte) := do
  let entries := getEntriesFromDir tree
  let order ← collectDirs entries fuel [] { visited := [], dirOrder := [] }
  let tables := planTables entries order.dirOrder sectorSize
  let fileDataOffset := ceilSector tables.2
  let files := planFiles fileDataOffset entries []
  let header ← packHeader entries.length
  let body ← joinAll (packTable entries tables.1 files.1) order.dirOrder
  let memDisk := ljust fileDataOffset (header ++ body) ++ files.2
  some (writeSectors memDisk.length memDisk)

end Writer

section Reader

structure TableEntry where
  name : Text
  size : Nat
  isfile : Bool
  span : Span
  deriving DecidableEq

def rstripNul (bytes : List Byte) : List Byte := (bytes.reverse.dropWhile (· = 0)).reverse

def unpackEntry (bytes : List Byte) : TableEntry where
  name := Utf8.decode (rstripNul (bytes.take 32))
  size := decodeLE ((bytes.drop 32).take 4)
  isfile := decodeLE ((bytes.drop 36).take 1) != 0
  span :=
    { startBlock := decodeLE ((bytes.drop 37).take 4)
      endBlock := decodeLE ((bytes.drop 41).take 4)
      startByte := decodeLE ((bytes.drop 45).take 2)
      endByte := decodeLE ((bytes.drop 47).take 2) }

/-- `f.seek(offset)` and `f.read(size)`. -/
def readAt (image : List Byte) (offset size : Nat) : List Byte := (image.drop offset).take size

def readDirTable (image : List Byte) : Nat → Nat → List TableEntry
  | _, 0 => []
  | offset, count + 1 =>
      let bytes := readAt image offset entrySize
      if bytes.length ≠ entrySize then []
      else unpackEntry bytes :: readDirTable image (offset + entrySize) count

def TableEntry.childOffset (entry : TableEntry) : Nat :=
  entry.span.startBlock * sectorSize + entry.span.startByte

def TableEntry.childCount (entry : TableEntry) : Int :=
  ((entry.span.endBlock * sectorSize + entry.span.endByte : Nat) - (entry.childOffset : Int) + 1) /
    entrySize

/-- A directory entry with a table of its own. -/
def TableEntry.HasTable (entry : TableEntry) : Prop :=
  entry.isfile = false ∧ entry.size = 0 ∧
    (entry.span.startBlock ≠ 0 ∨ entry.span.startByte ≠ 0)

instance (entry : TableEntry) : Decidable entry.HasTable := inferInstanceAs (Decidable (_ ∧ _))

structure Walk (σ : Type) where
  visited : List Nat
  handled : Nat
  effect : σ

/-- What tells `print_tree` and `extract_all` apart: the entries taken of a
table, what is done with one, the context of the table below it and when that
table is read. -/
structure Visitor (κ σ : Type) where
  select : Nat → List TableEntry → List TableEntry
  visit : κ → TableEntry → σ → Option σ
  child : κ → TableEntry → κ
  descends : Int → Bool

variable {κ σ : Type}

def walkRows (visitor : Visitor κ σ) (recurse : Nat → Int → κ → Walk σ → Option (Walk σ))
    (maxEntries : Nat) (context : κ) :
    List TableEntry → List Text → Walk σ → Option (Walk σ)
  | [], _, walk => some walk
  | entry :: rest, seen, walk =>
      if walk.handled ≥ maxEntries then some walk
      else if entry.name = [] ∨ entry.name ∈ seen then
        walkRows visitor recurse maxEntries context rest seen walk
      else
        (visitor.visit context entry walk.effect).bind fun effect =>
          let walk := { walk with handled := walk.handled + 1, effect := effect }
          if entry.HasTable ∧ entry.childOffset ∉ walk.visited then
            let walk := { walk with visited := entry.childOffset :: walk.visited }
            (if visitor.descends entry.childCount then
              recurse entry.childOffset entry.childCount (visitor.child context entry) walk
            else some walk).bind fun walk =>
              walkRows visitor recurse maxEntries context rest (entry.name :: seen) walk
          else walkRows visitor recurse maxEntries context rest (entry.name :: seen) walk

def walkTable (visitor : Visitor κ σ) (image : List Byte) (maxEntries : Nat) :
    Nat → Nat → Int → κ → Walk σ → Option (Walk σ)
  | 0, _, _, _, _ => none
  | fuel + 1, offset, count, context, walk =>
      walkRows visitor (walkTable visitor image maxEntries fuel) maxEntries context
        (visitor.select offset (readDirTable image offset count.toNat)) [] walk

def entryLine (indent : Nat) (isfile : Bool) (name : Text) : Text :=
  List.replicate (2 * indent) ' ' ++ (if isfile then "[F] " else "[D] ").toList ++ name

/-- The context is the indentation, the effect the lines printed so far. -/
def printVisitor : Visitor Nat (List Text) where
  select _ entries := entries
  visit indent entry lines := some (lines ++ [entryLine indent entry.isfile entry.name])
  child indent _ := indent + 1
  descends _ := true

def printTree (image : List Byte) (fuel maxEntries offset : Nat) (count : Int) :
    Option (Walk (List Text)) :=
  walkTable printVisitor image maxEntries fuel offset count 0 ⟨[], 0, []⟩

def readFileData (image : List Byte) (entry : TableEntry) : List Byte :=
  readAt image entry.childOffset entry.size

/-- The context is `base_path`, the effect the file system. -/
def extractVisitor (image : List Byte) (cwd : List Text) : Visitor Text FileSystem where
  select offset entries := if offset = sectorSize then entries.tail else entries
  visit basePath entry fs :=
    let fullPath := osJoin basePath entry.name
    if entry.isfile then
      (makedirs fs cwd (dirname fullPath)).bind fun fs =>
        writeFile fs (resolve cwd fullPath) (readFileData image entry)
    else makedirs fs cwd fullPath
  child basePath entry := osJoin basePath entry.name
  descends count := decide (0 < count)

def extractAll (image : List Byte) (cwd : List Text) (fuel maxEntries offset : Nat)
    (count : Int) (basePath : Text) (fs : FileSystem) : Option (Walk FileSystem) :=
  walkTable (extractVisitor image cwd) image maxEntries fuel offset count basePath ⟨[], 0, fs⟩

/-- `main` with `--extract outdir`: what it prints, and the file system it
leaves; no result where Python raises. -/
def main (fuel : Nat) (cwd : List Text) (outdir : Text) (image : List Byte) (fs : FileSystem) :
    Option (List Text × FileSystem) :=
  if image.take 4 ≠ [0x4C, 0x75, 0x46, 0x53] then
    some (["Not a valid LuFS image.".toList], fs)
  else if (readAt image 4 4).length ≠ 4 then none
  else do
    let entryCount := decodeLE (readAt image 4 4)
    let metadata := ["=== Filesystem metadata ===".toList,
      "Entry count: ".toList ++ (toString entryCount).toList]
    if entryCount = 0 then some (metadata ++ ["No entries found in the filesystem.".toList], fs)
    else do
      let printed ← printTree image fuel (entryCount - 1) sectorSize entryCount
      let fs ← makedirs fs cwd outdir
      let extracted ← extractAll image cwd fuel (entryCount - 1) sectorSize entryCount outdir fs
      some (metadata ++ ["=== Filesystem contents ===".toList] ++ printed.effect ++
        ["\nExtracting to: ".toList ++ outdir], extracted.effect)

end Reader

end LumenOS.LufsModel
