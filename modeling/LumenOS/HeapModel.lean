import LumenOS.ByteMemory
import LumenOS.FirstFit

/-!
# `malloc` and `free` of `stdlib.c`

The heap is an array of 64 KiB at the address `base` of a 32-bit machine.
Block headers live in its bytes: size, free flag and next pointer, one word
each. The walk along the list takes the number of headers it may visit.

Clients ask, release and write into the first bytes of what they were given.
-/

namespace LumenOS.HeapModel

open LumenOS.ByteMemory LumenOS.FirstFit

set_option autoImplicit false

/-- `HEAP_SIZE` and `sizeof(BlockHeader)`. -/
def heapSize : Nat := 64 * 1024
def headerSize : Nat := 12

def blockSize (memory : Memory) (block : Nat) : Nat := load32 memory block
def blockFree (memory : Memory) (block : Nat) : Nat := load32 memory (block + 4)
def blockNext (memory : Memory) (block : Nat) : Nat := load32 memory (block + 8)

def align4 (x : Nat) : Nat := u32 (((u32 (x + (2 ^ 32 - 1)) >>> 2) <<< 2) + 4)

structure Heap where
  memory : Memory
  heapUsed : Nat
  freeList : Nat
  serial : List String

def outOfMemory : String := "Out of memory error! Free up some blocks!\n"

/-- The loop of `malloc`: the block it stops at, zero for none, and `prev`. -/
def walk (memory : Memory) (size : Nat) : Nat → Nat → Nat → Option (Nat × Nat)
  | 0, _, _ => none
  | fuel + 1, curr, prev =>
      if curr = 0 then some (0, prev)
      else if blockFree memory curr ≠ 0 ∧ blockSize memory curr ≥ size then some (curr, prev)
      else walk memory size fuel (blockNext memory curr) curr

/-- `curr->size = size; curr->free = 0; curr->next = NULL`. -/
def writeHeader (memory : Memory) (curr size : Nat) : Memory :=
  store32 (store32 (store32 memory curr size) (curr + 4) 0) (curr + 8) 0

def append (base size prev : Nat) (heap : Heap) : Nat × Heap :=
  if u32 (heap.heapUsed + size) > heapSize then
    (0, { heap with serial := heap.serial ++ [outOfMemory] })
  else
    let curr := u32 (base + heap.heapUsed)
    let memory := writeHeader heap.memory curr size
    let heap := { heap with heapUsed := u32 (heap.heapUsed + size) }
    if prev ≠ 0 then
      (u32 (curr + headerSize), { heap with memory := store32 memory (prev + 8) curr })
    else (u32 (curr + headerSize), { heap with memory := memory, freeList := curr })

def malloc (fuel base size : Nat) (heap : Heap) : Option (Nat × Heap) :=
  let size := u32 (align4 size + headerSize)
  (walk heap.memory size fuel heap.freeList 0).map fun stopped =>
    if stopped.1 ≠ 0 then
      (u32 (stopped.1 + headerSize), { heap with memory := store32 heap.memory (stopped.1 + 4) 0 })
    else append base size stopped.2 heap

def free (ptr : Nat) (heap : Heap) : Heap :=
  if ptr = 0 then heap
  else
    let block := u32 (ptr + (2 ^ 32 - headerSize))
    { heap with memory := store32 heap.memory (block + 4) 1 }

def emptyHeap (memory : Memory) : Heap where
  memory := memory
  heapUsed := 0
  freeList := 0
  serial := []

inductive Request where
  | malloc (size : Nat)
  | free (ptr : Nat)
  | store (ptr offset : Nat) (value : Byte)

/-- The heap and what its clients hold: pointers with the sizes asked for. -/
structure Client where
  heap : Heap
  live : List (Nat × Nat)

def answer (fuel base : Nat) (client : Client) : Request → Option Client
  | .malloc size =>
      (malloc fuel base size client.heap).map fun result =>
        { heap := result.2
          live := if result.1 = 0 then client.live else (result.1, size) :: client.live }
  | .free ptr =>
      some { heap := free ptr client.heap
             live := client.live.filter fun entry => entry.1 ≠ ptr }
  | .store ptr offset value =>
      some { client with
        heap := { client.heap with
          memory := writeByte client.heap.memory (ptr + offset) value } }

/-- Requests up to `HEAP_SIZE`, releases of what is held, writes within it. -/
def Allowed (client : Client) : Request → Prop
  | .malloc size => size ≤ heapSize
  | .free ptr => ptr = 0 ∨ ∃ size, (ptr, size) ∈ client.live
  | .store ptr offset _ => ∃ size, (ptr, size) ∈ client.live ∧ offset < size

def answerAll (fuel base : Nat) (client : Client) : List Request → Option Client
  | [] => some client
  | request :: requests => (answer fuel base client request).bind fun next =>
      answerAll fuel base next requests

def AllAllowed (fuel base : Nat) (client : Client) : List Request → Prop
  | [] => True
  | request :: requests => Allowed client request ∧
      ∀ next, answer fuel base client request = some next → AllAllowed fuel base next requests

/-- The blocks met from `pointer` on, up to the null pointer. -/
def Reached (memory : Memory) : Nat → List Nat → Prop
  | pointer, [] => pointer = 0
  | pointer, block :: blocks => pointer = block ∧ block ≠ 0 ∧
      Reached memory (blockNext memory block) blocks

/-- The blocks cover the addresses from `start` to `stop` one after the other. -/
def Tiles (memory : Memory) (stop : Nat) : Nat → List Nat → Prop
  | start, [] => start = stop
  | start, block :: blocks => block = start ∧
      Tiles memory stop (start + blockSize memory block) blocks

def payloadEnd (memory : Memory) (ptr : Nat) : Nat :=
  ptr - headerSize + blockSize memory (ptr - headerSize)

structure HeapInvariant (base : Nat) (client : Client) (blocks : List Nat) : Prop where
  reached : Reached client.heap.memory client.heap.freeList blocks
  tiles : Tiles client.heap.memory (base + client.heap.heapUsed) base blocks
  used : client.heap.heapUsed ≤ heapSize
  sizes : ∀ block ∈ blocks, blockSize client.heap.memory block % 4 = 0 ∧
    headerSize ≤ blockSize client.heap.memory block
  inside : ∀ ptr size, (ptr, size) ∈ client.live →
    base ≤ ptr ∧ ptr + size ≤ payloadEnd client.heap.memory ptr ∧
      payloadEnd client.heap.memory ptr ≤ base + heapSize
  apart : client.live.Pairwise fun left right =>
    payloadEnd client.heap.memory left.1 ≤ right.1 ∨ payloadEnd client.heap.memory right.1 ≤ left.1
  offHeaders : ∀ ptr size, (ptr, size) ∈ client.live → ∀ block ∈ blocks,
    payloadEnd client.heap.memory ptr ≤ block ∨ block + headerSize ≤ ptr

/-- What a call of `malloc` or `free` leaves alone. -/
structure Undisturbed (fuel base : Nat) (client : Client) : Prop where
  byMalloc : ∀ size result, size ≤ heapSize →
    malloc fuel base size client.heap = some result →
    ∀ ptr request, (ptr, request) ∈ client.live → ∀ address, ptr ≤ address →
      address < payloadEnd client.heap.memory ptr →
      readByte result.2.memory address = readByte client.heap.memory address
  byFree : ∀ released, Allowed client (.free released) →
    ∀ ptr request, (ptr, request) ∈ client.live → ∀ address, ptr ≤ address →
      address < payloadEnd client.heap.memory ptr →
      readByte (free released client.heap).memory address = readByte client.heap.memory address
  byRefusal : ∀ size heap, size ≤ heapSize →
    malloc fuel base size client.heap = some (0, heap) →
    heap.memory = client.heap.memory ∧ heap.freeList = client.heap.freeList ∧
      heap.heapUsed = client.heap.heapUsed

end LumenOS.HeapModel
