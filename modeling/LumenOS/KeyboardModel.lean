import LumenOS.ConsoleModel

/-!
# Keyboard translation, the keyboard ring and the interrupt dispatcher

`io/kbd_mouse.c` and the dispatcher `isr_handler` of `idt/idt.c`. A scancode
read from port `0x60` is a parameter of the handler. The `itoa` call in
`keyboard_handler` fills a local buffer that nothing reads and is left out.
-/

namespace LumenOS.KeyboardModel

open LumenOS.ByteMemory LumenOS.ConsoleModel

set_option autoImplicit false

/-- The non-zero assignments of `keyboard_init`; every other entry is zero. -/
def keyboardInit : List (Byte × Char) :=
  [(0x02, '1'), (0x03, '2'), (0x04, '3'), (0x05, '4'), (0x06, '5'), (0x07, '6'),
   (0x08, '7'), (0x09, '8'), (0x0a, '9'), (0x0b, '0'), (0x0c, '-'), (0x0d, '='),
   (0x0e, Char.ofNat 8), (0x0f, Char.ofNat 9),
   (0x10, 'q'), (0x11, 'w'), (0x12, 'e'), (0x13, 'r'), (0x14, 't'), (0x15, 'y'),
   (0x16, 'u'), (0x17, 'i'), (0x18, 'o'), (0x19, 'p'), (0x1a, '['), (0x1b, ']'),
   (0x1e, 'a'), (0x1f, 's'), (0x20, 'd'), (0x21, 'f'), (0x22, 'g'), (0x23, 'h'),
   (0x24, 'j'), (0x25, 'k'), (0x26, 'l'), (0x27, ';'), (0x28, Char.ofNat 39),
   (0x29, Char.ofNat 96), (0x2b, Char.ofNat 92),
   (0x2c, 'z'), (0x2d, 'x'), (0x2e, 'c'), (0x2f, 'v'), (0x30, 'b'), (0x31, 'n'),
   (0x32, 'm'), (0x33, ','), (0x34, '.'), (0x35, '/'), (0x37, '*'), (0x39, ' '),
   (0x47, '7'), (0x49, '9'), (0x4a, '-'), (0x4c, '5'), (0x4e, '+'), (0x4f, '1'),
   (0x51, '3'), (0x52, '0'), (0x53, '.')]

def km1 (scancode : Byte) : Byte :=
  match keyboardInit.lookup scancode with
  | some c => UInt8.ofNat c.toNat
  | none => 0

def isLetter (c : Byte) : Bool :=
  (65 ≤ c.toNat && c.toNat ≤ 90) || (97 ≤ c.toNat && c.toNat ≤ 122)

def isNumber (c : Byte) : Bool := 48 ≤ c.toNat && c.toNat ≤ 57

/-- The characters the digit keys give with shift held, by digit. -/
def shiftedDigits : List Char := [')', '!', '@', '#', '$', '%', '^', '&', '*', '(']

def applyShift (keyboardShift c : Byte) : Byte :=
  if keyboardShift = 0 then c
  else if isLetter c then c - 0x20
  else if isNumber c then
    match shiftedDigits[c.toNat - 0x30]? with
    | some shifted => UInt8.ofNat shifted.toNat
    | none => 0
  else 0

structure Keys where
  console : Console
  keyboardShift : Byte

def bootKeys (memory : Memory) : Keys where
  console := bootConsole memory
  keyboardShift := 0

/-- The `while` loop of the Backspace case. The column is an eight-bit value
that each round lowers until it reaches zero, so 256 rounds are enough. -/
def backspaceScan : Nat → Console → Console
  | 0, console => console
  | rounds + 1, console =>
      let (cell, console) := tbufferGet console (toSize console.vgaCol) (toSize console.vgaRow)
      if cell % 256 = 0 then
        let console := vgaPos console (console.vgaCol - 1) console.vgaRow
        if console.vgaCol = 0 then vgaPos console (console.vgaCol - 1) console.vgaRow
        else backspaceScan rounds console
      else console

/-- The Backspace case up to the cell it blanks: one column left, or the end
of the text on the row above. -/
def backspaceMove (console : Console) : Console :=
  if console.vgaCol > 0 then vgaPos console (console.vgaCol - 1) console.vgaRow
  else
    let console := vgaPos console ((vgaWidth : Int) - 1) (console.vgaRow - 1)
    let (cell, console) := tbufferGet console (toSize console.vgaCol) (toSize console.vgaRow)
    let console := serialWriteChar console (UInt8.ofNat cell)
    let (cell, console) := tbufferGet console (toSize console.vgaCol) (toSize console.vgaRow)
    if cell % 256 = 0 then
      let console := backspaceScan 256 console
      vgaPos console (console.vgaCol + 1) console.vgaRow
    else console

def backspace (console : Console) : Console :=
  let console := backspaceMove console
  vgaSet console 0 whiteOnBlack console.vgaCol console.vgaRow

/-- The character a scancode produces, zero for none, and the state after. -/
def keyboardGetChar (scancode : Byte) (keys : Keys) : Byte × Keys :=
  let console := keys.console
  if scancode = 0x2A then (0, { keys with keyboardShift := 255 })
  else if scancode = 0x36 then (0, { keys with keyboardShift := 255 })
  else if scancode = 0xAA then (0, { keys with keyboardShift := 0 })
  else if scancode = 0xB6 then (0, { keys with keyboardShift := 0 })
  else if scancode = 0x1C then (0, { keys with console := vgaNewline console })
  else if scancode = 0x0E then (0, { keys with console := backspace console })
  else if scancode = 0x48 then
    (0, { keys with console := vgaPos console console.vgaCol (console.vgaRow - 1) })
  else if scancode = 0x4B then
    (0, { keys with console := vgaPos console (console.vgaCol - 1) console.vgaRow })
  else if scancode = 0x4D then
    (0, { keys with console := vgaPos console (console.vgaCol + 1) console.vgaRow })
  else if scancode = 0x50 then
    (0, { keys with console := vgaPos console console.vgaCol (console.vgaRow + 1) })
  else (applyShift keys.keyboardShift (km1 scancode), keys)

def keyStep (keys : Keys) (scancode : Byte) : Keys := (keyboardGetChar scancode keys).2

/-- The keys that act on the screen inside the handler: Enter, Backspace and
the four arrows. -/
def ActsOnScreen (scancode : Byte) : Prop :=
  scancode ∈ [(0x1C : Byte), 0x0E, 0x48, 0x4B, 0x4D, 0x50]

instance (scancode : Byte) : Decidable (ActsOnScreen scancode) :=
  inferInstanceAs (Decidable (_ ∈ _))

theorem get_char_silent (scancode : Byte) (keys : Keys) (acts : ActsOnScreen scancode) :
    (keyboardGetChar scancode keys).1 = 0 := by
  simp only [ActsOnScreen, List.mem_cons, List.not_mem_nil, or_false] at acts
  rcases acts with rfl | rfl | rfl | rfl | rfl | rfl <;> rfl

theorem get_char_console (scancode : Byte) (keys : Keys) (passive : ¬ ActsOnScreen scancode) :
    (keyboardGetChar scancode keys).2.console = keys.console := by
  simp only [ActsOnScreen, List.mem_cons, List.not_mem_nil, or_false, not_or] at passive
  unfold keyboardGetChar
  simp only [passive, if_false]
  split_ifs <;> rfl

def kbdBufferSize : Nat := 128

/-- The circular buffer with its write and read positions. -/
structure KbdRing where
  kbdBuffer : Nat → Byte
  kbdHead : Nat
  kbdTail : Nat

def KbdRing.Empty (ring : KbdRing) : Prop := ring.kbdHead = ring.kbdTail

/-- The next write position would meet the read position. -/
def KbdRing.Full (ring : KbdRing) : Prop :=
  u8 ((ring.kbdHead + 1) % kbdBufferSize) = ring.kbdTail

instance (ring : KbdRing) : Decidable ring.Empty := inferInstanceAs (Decidable (_ = _))
instance (ring : KbdRing) : Decidable ring.Full := inferInstanceAs (Decidable (_ = _))

/-- The state the handler, the dispatcher and the main loop share;
`portWrites` is every `outb` to an interrupt controller, oldest first. -/
structure Kernel where
  keys : Keys
  ring : KbdRing
  portWrites : List (Nat × Byte)

def bootKernel : Kernel where
  keys := bootKeys fun _ => 0
  ring := { kbdBuffer := fun _ => 0, kbdHead := 0, kbdTail := 0 }
  portWrites := []

def outb (kernel : Kernel) (port : Nat) (value : Byte) : Kernel :=
  { kernel with portWrites := kernel.portWrites ++ [(port, value)] }

def keyboardHandler (scancode : Byte) (kernel : Kernel) : Kernel :=
  let (c, keys) := keyboardGetChar scancode kernel.keys
  let kernel := { kernel with keys := keys }
  let kernel :=
    if c ≠ 0 then
      let next := u8 ((kernel.ring.kbdHead + 1) % kbdBufferSize)
      if next ≠ kernel.ring.kbdTail then
        { kernel with ring := { kernel.ring with kbdHead := next } }
      else kernel
    else kernel
  outb kernel 0x20 0x20

def keyboardGetc (kernel : Kernel) : Byte × Kernel :=
  if kernel.ring.kbdHead = kernel.ring.kbdTail then (0, kernel)
  else
    (kernel.ring.kbdBuffer kernel.ring.kbdTail,
      { kernel with
        ring := { kernel.ring with
          kbdTail := u8 ((kernel.ring.kbdTail + 1) % kbdBufferSize) } })

/-- `isr_handler` by the vector number in its frame; `scancode` is what port
`0x60` gives if the keyboard handler is reached. -/
def isrHandler (intNo : Nat) (scancode : Byte) (kernel : Kernel) : Kernel :=
  if intNo = 128 then kernel
  else if 32 ≤ intNo ∧ intNo ≤ 47 then
    let kernel := if intNo = 33 then keyboardHandler scancode kernel else kernel
    let kernel := if 40 ≤ intNo then outb kernel 0xA0 0x20 else kernel
    outb kernel 0x20 0x20
  else kernel

/-- The `%c` directive of `printf`. -/
def printfChar (c : Byte) (console : Console) : Console :=
  if c = 10 ∨ c = 13 then vgaNewline console else vgaPut console c whiteOnBlack

/-- The part of a `kmain` loop pass after the call of `keyboard_handler`. -/
def kmainEcho (kernel : Kernel) : Kernel :=
  let (c, kernel) := keyboardGetc kernel
  if c ≠ 0 then
    { kernel with keys := { kernel.keys with console := printfChar c kernel.keys.console } }
  else kernel

end LumenOS.KeyboardModel
