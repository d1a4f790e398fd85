import LumenOS.StringModel
import Mathlib.Algebra.Group.Int.Defs

/-!
# The text console

`vga/` and `buffer/tbuffer.c` over the memory they write. The cursor is the
signed pair `vga_col`, `vga_row`; every store to it goes through `vga_pos`,
whose parameters are eight bits wide. The console also records what can be
observed of it from outside: the cursor location register, the bytes sent to
the serial port, and the cell index of each `tbuffer_get` and `tbuffer_set`.
-/

namespace LumenOS.ConsoleModel

open LumenOS.ByteMemory LumenOS.StringModel

set_option autoImplicit false

def vgaWidth : Nat := 80
def vgaHeight : Nat := 25
def vgaAddress : Nat := 0xB8000

/-- `VGA_COLOR(VGA_WHITE, VGA_BLACK)`. -/
def whiteOnBlack : Byte := (15 : Byte) ||| (0 : Byte) <<< 4

/-- `VGA_CHAR`: the character is sign-extended before the colour is put over it. -/
def vgaChar (a color : Byte) : UInt16 :=
  a.toInt8.toInt16.toUInt16 ||| (color.toUInt16 <<< 8)

theorem sign_extended_low (a : Byte) : a.toInt8.toInt16.toUInt16.toUInt8 = a := by
  apply UInt8.eq_of_toBitVec_eq
  apply BitVec.eq_of_getLsbD_eq
  intro i bound
  simp [BitVec.getLsbD_signExtend, bound]
  omega

theorem shifted_low (color : Byte) : (color.toUInt16 <<< 8).toUInt8 = 0 := by
  apply UInt8.toNat_inj.mp
  simp [Nat.shiftLeft_eq]

theorem vga_char_low (a color : Byte) : UInt8.ofNat (vgaChar a color).toNat = a := by
  rw [UInt8.ofNat_uInt16ToNat, vgaChar, UInt16.toUInt8_or, sign_extended_low, shifted_low]
  exact UInt8.or_zero

structure TBuffer where
  address : Nat
  width : Nat
  height : Nat

structure Console where
  memory : Memory
  vgaBuffer : TBuffer
  vgaRow : Int
  vgaCol : Int
  cursorLocation : Nat
  accesses : List Nat
  serial : List Byte

/-- Conversion of an `int` argument to an `unsigned char` parameter. -/
def toUChar (value : Int) : Int := value % 256

/-- Conversion of an `int` or `short` argument to a `size_t` parameter. -/
def toSize (value : Int) : Nat := (value % 2 ^ 32).toNat

def TBuffer.index (buffer : TBuffer) (x y : Nat) : Nat := u32 (y * buffer.width + x)

def tbufferInit (console : Console) (address width height : Nat) : Console :=
  { console with vgaBuffer := { address, width, height } }

def tbufferFill (console : Console) (c : UInt16) : Console :=
  { console with
    memory := (List.range (u32 (console.vgaBuffer.width * console.vgaBuffer.height))).foldl
      (fun memory i => store16 memory (console.vgaBuffer.address + 2 * i) c.toNat)
      console.memory }

def tbufferSet (console : Console) (c : UInt16) (x y : Nat) : Console :=
  let index := console.vgaBuffer.index x y
  { console with
    memory := store16 console.memory (console.vgaBuffer.address + 2 * index) c.toNat
    accesses := console.accesses ++ [index] }

/-- The cell that is read, and the console with the access recorded. -/
def tbufferGet (console : Console) (x y : Nat) : Nat × Console :=
  let index := console.vgaBuffer.index x y
  (load16 console.memory (console.vgaBuffer.address + 2 * index),
    { console with accesses := console.accesses ++ [index] })

def serialWriteChar (console : Console) (c : Byte) : Console :=
  { console with serial := console.serial ++ [c] }

/-- The four port writes leave the 16-bit position in the CRT controller's
cursor location registers. -/
def vgaCursorPos (console : Console) (x y : Int) : Console :=
  { console with cursorLocation := u16 (toUChar y * (vgaWidth : Int) + toUChar x).toNat }

def vgaPos (console : Console) (col row : Int) : Console :=
  vgaCursorPos { console with vgaCol := toUChar col, vgaRow := toUChar row } (toUChar col)
    (toUChar row)

def vgaInit (console : Console) : Console :=
  tbufferInit console vgaAddress vgaWidth vgaHeight

def vgaClear (console : Console) (color : Byte) : Console :=
  tbufferFill console (vgaChar 0 color)

/-- `VGA_ADDRESS[i] = cell` for the `count` cells from `start`. -/
def blankCells (memory : Memory) (start count cell : Nat) : Memory :=
  (List.range count).foldl (fun memory i => store16 memory (vgaAddress + 2 * (start + i)) cell)
    memory

def vgaScroll (console : Console) (lines : Nat) : Console :=
  if vgaHeight ≤ lines then
    { console with memory := blankCells console.memory 0 (vgaWidth * vgaHeight) 0x0720 }
  else
    let charsToCopy := (vgaHeight - lines) * vgaWidth
    let moved := memmove console.memory vgaAddress (vgaAddress + 2 * (lines * vgaWidth))
      (charsToCopy * 2)
    { console with
      memory := (List.range lines).foldl
        (fun memory i => blankCells memory ((vgaHeight - lines + i) * vgaWidth) vgaWidth 0x0700)
        moved }

def vgaNewline (console : Console) : Console :=
  let moved := vgaPos console 0 (console.vgaRow + 1)
  if moved.vgaRow > (vgaHeight : Int) - 1 then
    let scrolled := vgaScroll moved 1
    vgaPos scrolled 0 (scrolled.vgaRow - 1)
  else moved

def vgaSet (console : Console) (a color : Byte) (col row : Int) : Console :=
  tbufferSet console (vgaChar a color) (toUChar col).toNat (toUChar row).toNat

def vgaPut (console : Console) (a color : Byte) : Console :=
  let console := if console.vgaCol + 1 ≥ (vgaWidth : Int) then vgaNewline console else console
  let console := vgaSet console a color console.vgaCol console.vgaRow
  vgaPos console (console.vgaCol + 1) console.vgaRow

section Fields

variable (console : Console)

@[simp] theorem vga_pos_col (col row : Int) :
    (vgaPos console col row).vgaCol = toUChar col := rfl
@[simp] theorem vga_pos_row (col row : Int) :
    (vgaPos console col row).vgaRow = toUChar row := rfl
@[simp] theorem vga_pos_buffer (col row : Int) :
    (vgaPos console col row).vgaBuffer = console.vgaBuffer := rfl
@[simp] theorem vga_pos_memory (col row : Int) :
    (vgaPos console col row).memory = console.memory := rfl

theorem vga_scroll_memory_only (lines : Nat) :
    ∃ memory, vgaScroll console lines = { console with memory := memory } := by
  unfold vgaScroll
  split_ifs
  · exact ⟨_, rfl⟩
  · exact ⟨_, rfl⟩

theorem vga_newline_cursor :
    (vgaNewline console).vgaCol = 0 ∧
      (vgaNewline console).vgaRow =
        if toUChar (console.vgaRow + 1) > 24 then toUChar (toUChar (console.vgaRow + 1) - 1)
        else toUChar (console.vgaRow + 1) := by
  rcases vga_scroll_memory_only (vgaPos console 0 (console.vgaRow + 1)) 1 with ⟨memory, scrolled⟩
  unfold vgaNewline
  simp only [vga_pos_row, vgaHeight, scrolled]
  split_ifs with below below below
  · exact ⟨rfl, rfl⟩
  · omega
  · omega
  · exact ⟨rfl, rfl⟩

theorem vga_newline_keeps :
    (vgaNewline console).vgaBuffer = console.vgaBuffer ∧
      (vgaNewline console).accesses = console.accesses := by
  rcases vga_scroll_memory_only (vgaPos console 0 (console.vgaRow + 1)) 1 with ⟨memory, scrolled⟩
  unfold vgaNewline
  simp only [scrolled]
  split_ifs <;> exact ⟨rfl, rfl⟩

end Fields

/-- The console as `kmain` sets it up, from zeroed statics and any memory. -/
def bootConsole (memory : Memory) : Console :=
  let console : Console :=
    { memory := memory, vgaBuffer := ⟨0, 0, 0⟩, vgaRow := 0, vgaCol := 0, cursorLocation := 0,
      accesses := [], serial := [] }
  vgaPos (vgaClear (vgaInit console) whiteOnBlack) 0 0

end LumenOS.ConsoleModel
