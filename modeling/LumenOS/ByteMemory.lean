import Mathlib.Algebra.Group.Nat.Defs
import Mathlib.Data.List.Basic

/-!
# Bytes, little-endian words and the memory of a 32-bit machine

Words are natural numbers reduced where they are stored. An address is
reduced modulo the four-gigabyte space at each single byte access, so a word
at the very top of memory wraps around byte by byte.
-/

namespace LumenOS.ByteMemory

set_option autoImplicit false

abbrev Byte := UInt8

def u8 (value : Nat) : Nat := value % 2 ^ 8
def u16 (value : Nat) : Nat := value % 2 ^ 16
def u32 (value : Nat) : Nat := value % 2 ^ 32

def encodeLE : Nat → Nat → List Byte
  | 0, _ => []
  | width + 1, value => UInt8.ofNat value :: encodeLE width (value / 256)

def decodeLE : List Byte → Nat
  | [] => 0
  | byte :: rest => byte.toNat + 256 * decodeLE rest

@[simp] theorem encode_le_length (width value : Nat) : (encodeLE width value).length = width := by
  induction width generalizing value with
  | zero => rfl
  | succ width ih => simp [encodeLE, ih]

theorem decode_encode_le (width value : Nat) :
    decodeLE (encodeLE width value) = value % 256 ^ width := by
  induction width generalizing value with
  | zero => simp [encodeLE, decodeLE, Nat.mod_one]
  | succ width ih =>
      have split : value % 256 ^ (width + 1) = value % 256 + 256 * (value / 256 % 256 ^ width) := by
        rw [Nat.pow_succ', Nat.mod_mul]
      simp only [encodeLE, decodeLE, ih, UInt8.toNat_ofNat', split]

abbrev Memory := Nat → Byte

def readByte (memory : Memory) (address : Nat) : Byte := memory (u32 address)

def writeByte (memory : Memory) (address : Nat) (value : Byte) : Memory :=
  fun other => if other = u32 address then value else memory other

def readBytes (memory : Memory) : Nat → Nat → List Byte
  | _, 0 => []
  | address, count + 1 => readByte memory address :: readBytes memory (address + 1) count

def writeBytes (memory : Memory) : Nat → List Byte → Memory
  | _, [] => memory
  | address, byte :: rest => writeBytes (writeByte memory address byte) (address + 1) rest

def load16 (memory : Memory) (address : Nat) : Nat := decodeLE (readBytes memory address 2)
def load32 (memory : Memory) (address : Nat) : Nat := decodeLE (readBytes memory address 4)

def store16 (memory : Memory) (address value : Nat) : Memory :=
  writeBytes memory address (encodeLE 2 value)

def store32 (memory : Memory) (address value : Nat) : Memory :=
  writeBytes memory address (encodeLE 4 value)

/-- Two ranges of addresses share no byte of the wrapped address space. -/
def Disjoint (left leftCount right rightCount : Nat) : Prop :=
  ∀ i j, i < leftCount → j < rightCount → u32 (left + i) ≠ u32 (right + j)

theorem disjoint_of_separate {left leftCount right rightCount : Nat}
    (leftFits : left + leftCount ≤ 2 ^ 32) (rightFits : right + rightCount ≤ 2 ^ 32)
    (separate : left + leftCount ≤ right ∨ right + rightCount ≤ left) :
    Disjoint left leftCount right rightCount := by
  intro i j iBound jBound
  simp only [u32]
  omega

@[simp] theorem read_write_same (memory : Memory) (address : Nat) (value : Byte) :
    readByte (writeByte memory address value) address = value := by
  simp [readByte, writeByte]

theorem read_write_other (memory : Memory) (address other : Nat) (value : Byte)
    (different : u32 other ≠ u32 address) :
    readByte (writeByte memory address value) other = readByte memory other := by
  simp [readByte, writeByte, different]

@[simp] theorem read_bytes_length (memory : Memory) (address count : Nat) :
    (readBytes memory address count).length = count := by
  induction count generalizing address with
  | zero => rfl
  | succ count ih => simp [readBytes, ih]

theorem read_bytes_get (memory : Memory) (address count i : Nat) (bound : i < count) :
    (readBytes memory address count)[i]? = some (readByte memory (address + i)) := by
  induction count generalizing address i with
  | zero => omega
  | succ count ih =>
      cases i with
      | zero => rfl
      | succ i =>
          simp only [readBytes, List.getElem?_cons_succ]
          rw [ih (address + 1) i (by omega), show address + 1 + i = address + (i + 1) by omega]

theorem read_bytes_congr {left right : Memory} {address other count : Nat}
    (same : ∀ i, i < count → readByte left (address + i) = readByte right (other + i)) :
    readBytes left address count = readBytes right other count := by
  induction count generalizing address other with
  | zero => rfl
  | succ count ih =>
      have head : readByte left address = readByte right other := same 0 (by omega)
      simp only [readBytes, head]
      rw [ih]
      intro i bound
      have shifted := same (i + 1) (by omega)
      rwa [show address + 1 + i = address + (i + 1) by omega,
        show other + 1 + i = other + (i + 1) by omega]

theorem write_bytes_outside (memory : Memory) (address : Nat) (bytes : List Byte) (other : Nat)
    (outside : ∀ i, i < bytes.length → u32 other ≠ u32 (address + i)) :
    readByte (writeBytes memory address bytes) other = readByte memory other := by
  induction bytes generalizing memory address with
  | nil => rfl
  | cons byte rest ih =>
      simp only [writeBytes]
      rw [ih]
      · exact read_write_other _ _ _ _ (outside 0 (by simp))
      · intro i bound
        have shifted := outside (i + 1) (by simpa using bound)
        rwa [show address + 1 + i = address + (i + 1) by omega]

theorem write_bytes_inside (memory : Memory) (address : Nat) (bytes : List Byte) (i : Nat)
    (bound : i < bytes.length) (fits : bytes.length ≤ 2 ^ 32) :
    readByte (writeBytes memory address bytes) (address + i) = bytes[i] := by
  induction bytes generalizing memory address i with
  | nil => simp at bound
  | cons byte rest ih =>
      simp only [List.length_cons] at bound fits
      cases i with
      | zero =>
          simp only [writeBytes, Nat.add_zero, List.getElem_cons_zero]
          rw [write_bytes_outside, read_write_same]
          intro i iBound
          simp only [u32]
          omega
      | succ i =>
          simp only [writeBytes, List.getElem_cons_succ]
          rw [← ih (writeByte memory address byte) (address + 1) i (by omega) (by omega)]
          congr 1
          omega

theorem write_bytes_append (memory : Memory) (address : Nat) (first second : List Byte) :
    writeBytes memory address (first ++ second) =
      writeBytes (writeBytes memory address first) (address + first.length) second := by
  induction first generalizing memory address with
  | nil => rfl
  | cons byte first ih =>
      simp only [List.cons_append, writeBytes, List.length_cons]
      rw [ih, Nat.add_assoc, Nat.add_comm 1]

def window (content : Nat → Byte) : Nat → Nat → List Byte
  | _, 0 => []
  | start, count + 1 => content start :: window content (start + 1) count

@[simp] theorem window_length (content : Nat → Byte) (start count : Nat) :
    (window content start count).length = count := by
  induction count generalizing start with
  | zero => rfl
  | succ count ih => simp [window, ih]

theorem window_append (content : Nat → Byte) (start first second : Nat) :
    window content start (first + second) =
      window content start first ++ window content (start + first) second := by
  induction first generalizing start with
  | zero => simp [window]
  | succ first ih =>
      have next : first + 1 + second = (first + second) + 1 := by omega
      have moved : start + 1 + first = start + (first + 1) := by omega
      rw [next]
      simp only [window, List.cons_append]
      rw [ih, moved]

theorem window_slice (content : Nat → Byte) (start count skip part : Nat)
    (inside : skip + part ≤ count) :
    ((window content start count).drop skip).take part = window content (start + skip) part := by
  have rest : count = skip + (part + (count - skip - part)) := by omega
  rw [rest, window_append, List.drop_left' (window_length _ _ _), window_append,
    List.take_left' (window_length _ _ _)]

theorem window_congr {left right : Nat → Byte} {leftStart rightStart count : Nat}
    (same : ∀ i, i < count → left (leftStart + i) = right (rightStart + i)) :
    window left leftStart count = window right rightStart count := by
  induction count generalizing leftStart rightStart with
  | zero => rfl
  | succ count ih =>
      have head : left leftStart = right rightStart := same 0 (by omega)
      simp only [window, head]
      rw [ih]
      intro i bound
      have shifted := same (i + 1) (by omega)
      rwa [Nat.add_right_comm leftStart, Nat.add_assoc, Nat.add_right_comm rightStart,
        Nat.add_assoc rightStart]

theorem window_get (content : Nat → Byte) (start count i : Nat) (bound : i < count) :
    (window content start count)[i]? = some (content (start + i)) := by
  induction count generalizing start i with
  | zero => omega
  | succ count ih =>
      cases i with
      | zero => rfl
      | succ i =>
          have moved : start + 1 + i = start + (i + 1) := by omega
          simp only [window, List.getElem?_cons_succ]
          rw [ih (start + 1) i (by omega), moved]

theorem window_eq_iff (left right : Nat → Byte) (count : Nat) :
    window left 0 count = window right 0 count ↔ ∀ i, i < count → left i = right i := by
  constructor
  · intro equal i bound
    have leftGet := window_get left 0 count i bound
    rw [equal, window_get right 0 count i bound] at leftGet
    have bytes := Option.some.inj leftGet
    rwa [Nat.zero_add, eq_comm] at bytes
  · intro same
    apply window_congr
    intro i bound
    rw [Nat.zero_add]
    exact same i bound

theorem read_bytes_window (memory : Memory) (address count : Nat) :
    readBytes memory address count = window (fun i => readByte memory (address + i)) 0 count := by
  apply List.ext_getElem?
  intro i
  by_cases bound : i < count
  · rw [read_bytes_get _ _ _ _ bound, window_get _ _ _ _ bound, Nat.zero_add]
  · rw [List.getElem?_eq_none (by simpa using bound), List.getElem?_eq_none (by simpa using bound)]

theorem read_bytes_append (memory : Memory) (address first second : Nat) :
    readBytes memory address (first + second) =
      readBytes memory address first ++ readBytes memory (address + first) second := by
  simp only [read_bytes_window, window_append, Nat.zero_add]
  congr 1
  apply window_congr
  intro i _
  rw [Nat.zero_add, Nat.add_assoc]

theorem read_bytes_succ (memory : Memory) (address count : Nat) :
    readBytes memory address (count + 1) =
      readBytes memory address count ++ [readByte memory (address + count)] :=
  read_bytes_append memory address count 1

theorem read_bytes_slice (memory : Memory) (address count start part : Nat)
    (inside : start + part ≤ count) :
    readBytes memory (address + start) part =
      ((readBytes memory address count).drop start).take part := by
  have rest : count = start + (part + (count - start - part)) := by omega
  rw [rest, read_bytes_append, List.drop_left' (read_bytes_length _ _ _), read_bytes_append,
    List.take_left' (read_bytes_length _ _ _)]

theorem read_write_bytes_same (memory : Memory) (address : Nat) (bytes : List Byte)
    (fits : bytes.length ≤ 2 ^ 32) :
    readBytes (writeBytes memory address bytes) address bytes.length = bytes := by
  apply List.ext_getElem?
  intro i
  by_cases bound : i < bytes.length
  · rw [read_bytes_get _ _ _ _ bound, write_bytes_inside _ _ _ _ bound fits,
      List.getElem?_eq_getElem bound]
  · rw [List.getElem?_eq_none (by simpa using bound), List.getElem?_eq_none (by simpa using bound)]

theorem read_write_bytes_disjoint (memory : Memory) (address : Nat) (bytes : List Byte)
    (other count : Nat) (apart : Disjoint other count address bytes.length) :
    readBytes (writeBytes memory address bytes) other count = readBytes memory other count := by
  apply read_bytes_congr
  intro i bound
  exact write_bytes_outside _ _ _ _ fun j jBound => apart i j bound jBound

@[simp] theorem load_store_same (memory : Memory) (address value : Nat) :
    load32 (store32 memory address value) address = u32 value := by
  have stored := read_write_bytes_same memory address (encodeLE 4 value) (by simp)
  rw [encode_le_length] at stored
  rw [load32, store32, stored, decode_encode_le]
  rfl

theorem load_store_disjoint (memory : Memory) (address other value : Nat)
    (apart : Disjoint other 4 address 4) :
    load32 (store32 memory address value) other = load32 memory other := by
  rw [load32, store32, read_write_bytes_disjoint _ _ _ _ _ (by simpa using apart), load32]

@[simp] theorem load16_store_same (memory : Memory) (address value : Nat) :
    load16 (store16 memory address value) address = u16 value := by
  have stored := read_write_bytes_same memory address (encodeLE 2 value) (by simp)
  rw [encode_le_length] at stored
  rw [load16, store16, stored, decode_encode_le]
  rfl

theorem load16_store_disjoint (memory : Memory) (address other value : Nat)
    (apart : Disjoint other 2 address 2) :
    load16 (store16 memory address value) other = load16 memory other := by
  rw [load16, store16, read_write_bytes_disjoint _ _ _ _ _ (by simpa using apart), load16]

theorem load32_congr {left right : Memory} {address : Nat}
    (same : ∀ i, i < 4 → readByte left (address + i) = readByte right (address + i)) :
    load32 left address = load32 right address := by
  rw [load32, load32, read_bytes_congr same]

theorem store32_outside (memory : Memory) (address value other : Nat)
    (outside : ∀ i, i < 4 → u32 other ≠ u32 (address + i)) :
    readByte (store32 memory address value) other = readByte memory other :=
  write_bytes_outside _ _ _ _ (by simpa using outside)

theorem store16_outside (memory : Memory) (address value other : Nat)
    (outside : ∀ i, i < 2 → u32 other ≠ u32 (address + i)) :
    readByte (store16 memory address value) other = readByte memory other :=
  write_bytes_outside _ _ _ _ (by simpa using outside)

/-- The usual form of the side condition, for places below the end of memory. -/
theorem store16_apart (memory : Memory) (address value other : Nat)
    (fits : address + 2 ≤ 2 ^ 32) (below : other < 2 ^ 32)
    (apart : other < address ∨ address + 2 ≤ other) :
    readByte (store16 memory address value) other = readByte memory other := by
  apply store16_outside
  intro i bound
  rw [u32, u32, Nat.mod_eq_of_lt below, Nat.mod_eq_of_lt (by omega)]
  omega

@[simp] theorem store16_low (memory : Memory) (address value : Nat) :
    readByte (store16 memory address value) address = UInt8.ofNat value :=
  write_bytes_inside memory address (encodeLE 2 value) 0 (by simp) (by simp)

end LumenOS.ByteMemory
