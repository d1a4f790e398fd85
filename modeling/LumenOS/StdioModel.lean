import LumenOS.KeyboardModel
import LumenOS.StepRuns

/-!
# Formatted output

`itoa`, `printf` and `sprintf` of `stdlib/stdio.c`. A format is the list of
its characters before the terminator, a string argument likewise. `printf` is
the sequence of console calls it makes, `sprintf` the characters it stores
before the terminating zero. Neither has a result where the format ends inside
a directive, since the loop then runs past the terminator, or where an argument
is missing or of another type.
-/

namespace LumenOS.StdioModel

open LumenOS.ByteMemory LumenOS.ConsoleModel LumenOS.KeyboardModel LumenOS.StepRuns

set_option autoImplicit false

def charByte (c : Char) : Byte := UInt8.ofNat c.toNat

def IsLineBreak (c : Byte) : Prop := c = 10 ∨ c = 13

instance (c : Byte) : Decidable (IsLineBreak c) := inferInstanceAs (Decidable (_ ∨ _))

def IsDigit (c : Byte) : Prop := charByte '0' ≤ c ∧ c ≤ charByte '9'

instance (c : Byte) : Decidable (IsDigit c) := inferInstanceAs (Decidable (_ ∧ _))

def digits : List Byte := "0123456789ABCDEF".toList.map charByte

/-- The digits of `uval`, lowest first. Halving at least, 32 rounds reach zero
from any unsigned value. -/
def itoaLoop (base : Nat) : Nat → Nat → List Byte
  | 0, _ => []
  | rounds + 1, uval =>
      if uval = 0 then []
      else digits.getD (uval % base) 0 :: itoaLoop base rounds (uval / base)

/-- What `itoa` leaves in the buffer before the terminator. -/
def itoa (value : Int) (base : Nat) : List Byte :=
  let uval := toSize (if base = 10 ∧ value < 0 then -value else value)
  if value = 0 then [charByte '0']
  else
    let buf := itoaLoop base 32 uval
    let buf := if base = 10 ∧ value < 0 then buf ++ [charByte '-'] else buf
    buf.reverse

/-- Arguments by the type `va_arg` asks for; `int` and `unsigned int` share a word. -/
inductive Arg where
  | word (value : UInt32)
  | pointer (address : UInt32)
  | string (s : Option (List Byte))

inductive ArgKind where
  | word
  | pointer
  | string
  deriving DecidableEq

def Arg.kind : Arg → ArgKind
  | .word _ => .word
  | .pointer _ => .pointer
  | .string _ => .string

def vaWord : List Arg → Option (UInt32 × List Arg)
  | .word value :: rest => some (value, rest)
  | _ => none

def vaPointer : List Arg → Option (UInt32 × List Arg)
  | .pointer address :: rest => some (address, rest)
  | _ => none

/-- A string argument; the null pointer reads as the empty string in both loops. -/
def vaString : List Arg → Option (List Byte × List Arg)
  | .string s :: rest => some (s.getD [], rest)
  | _ => none

/-- The word as the signed parameter of `itoa`. -/
def asInt (value : UInt32) : Int := value.toInt32.toInt

/-- `width * 10 + (c - '0')` in a wrapping `int`. -/
def widthStep (width : Int) (c : Byte) : Int :=
  (width * 10 + ((c.toNat : Int) - 48) + 2 ^ 31) % 2 ^ 32 - 2 ^ 31

/-- The rounds of `for (j = len; j < width; j++)`. -/
def padding (width : Int) (len : Nat) : Nat := (width - len).toNat

def uppercase (c : Byte) : Byte :=
  if charByte 'a' ≤ c ∧ c ≤ charByte 'f' then c - 32 else c

/-- A call `printf` makes; `vga_put` is always white on black. -/
inductive ConsoleCall where
  | put (c : Byte)
  | newline
  deriving DecidableEq

/-- `vga_print`: the length is cut to sixteen bits on its way to `vga_write`. -/
def vgaPrint (a : List Byte) : List ConsoleCall := (a.take (u16 a.length)).map .put

/-- A character on its own: a line break moves to the next line. -/
def putOrNewline (c : Byte) : ConsoleCall := if IsLineBreak c then .newline else .put c

/-- The `switch` of `printf` on the character after the width. -/
def printfDirective (width : Int) (c : Byte) (args : List Arg) :
    Option (List ConsoleCall × List Arg) :=
  if c = charByte 'c' then do
    let (value, args) ← vaWord args
    some ([putOrNewline value.toUInt8], args)
  else if c = charByte 's' then do
    let (s, args) ← vaString args
    some (List.replicate (padding width s.length)
      (if IsLineBreak c then .newline else .put (charByte ' ')) ++ s.map putOrNewline, args)
  else if c = charByte 'd' ∨ c = charByte 'i' then do
    let (val, args) ← vaWord args
    let buffer := itoa (asInt val) 10
    some (List.replicate (padding width buffer.length) (.put (charByte ' ')) ++
      vgaPrint buffer, args)
  else if c = charByte 'u' then do
    let (val, args) ← vaWord args
    let buffer := itoa (asInt val) 10
    some (List.replicate (padding width buffer.length) (.put (charByte ' ')) ++
      vgaPrint buffer, args)
  else if c = charByte 'x' then do
    let (val, args) ← vaWord args
    some (vgaPrint [charByte '0', charByte 'x'] ++ vgaPrint (itoa (asInt val) 16), args)
  else if c = charByte 'X' then do
    let (val, args) ← vaWord args
    let buffer := (itoa (asInt val) 16).map uppercase
    some (vgaPrint [charByte '0', charByte 'x'] ++ vgaPrint buffer, args)
  else if c = charByte 'o' then do
    let (val, args) ← vaWord args
    some (vgaPrint (itoa (asInt val) 8), args)
  else if c = charByte 'p' then do
    let (ptr, args) ← vaPointer args
    some (vgaPrint [charByte '0', charByte 'x'] ++ vgaPrint (itoa (asInt ptr) 16), args)
  else if c = charByte '%' then some ([.put (charByte '%')], args)
  else some ([.put (charByte '%'), .put c], args)

/-- The loop of `printf`, outside a directive or in the width of one. -/
def printfLoop : Option Int → List Byte → List Arg → Option (List ConsoleCall)
  | none, [], _ => some []
  | some _, [], _ => none
  | none, c :: format, args =>
      if IsLineBreak c then (printfLoop none format args).map (.newline :: ·)
      else if c = charByte '%' then printfLoop (some 0) format args
      else (printfLoop none format args).map (.put c :: ·)
  | some width, c :: format, args =>
      if IsDigit c then printfLoop (some (widthStep width c)) format args
      else do
        let (calls, args) ← printfDirective width c args
        (printfLoop none format args).map (calls ++ ·)

def printf (format : List Byte) (args : List Arg) : Option (List ConsoleCall) :=
  printfLoop none format args

/-- The `switch` of `sprintf`. -/
def sprintfDirective (width : Int) (c : Byte) (args : List Arg) :
    Option (List Byte × List Arg) :=
  if c = charByte 'c' then do
    let (value, args) ← vaWord args
    some ([value.toUInt8], args)
  else if c = charByte 's' then do
    let (s, args) ← vaString args
    some (List.replicate (padding width s.length) (charByte ' ') ++ s, args)
  else if c = charByte 'd' ∨ c = charByte 'i' then do
    let (val, args) ← vaWord args
    let buffer := itoa (asInt val) 10
    some (List.replicate (padding width buffer.length) (charByte ' ') ++ buffer, args)
  else if c = charByte 'u' then do
    let (val, args) ← vaWord args
    let buffer := itoa (asInt val) 10
    some (List.replicate (padding width buffer.length) (charByte ' ') ++ buffer, args)
  else if c = charByte 'x' then do
    let (val, args) ← vaWord args
    some ([charByte '0', charByte 'x'] ++ itoa (asInt val) 16, args)
  else if c = charByte 'X' then do
    let (val, args) ← vaWord args
    some ([charByte '0', charByte 'x'] ++ (itoa (asInt val) 16).map uppercase, args)
  else if c = charByte 'o' then do
    let (val, args) ← vaWord args
    some (itoa (asInt val) 8, args)
  else if c = charByte 'p' then do
    let (ptr, args) ← vaPointer args
    some ([charByte '0', charByte 'x'] ++ itoa (asInt ptr) 16, args)
  else if c = charByte '%' then some ([charByte '%'], args)
  else some ([charByte '%', c], args)

def sprintfLoop : Option Int → List Byte → List Arg → Option (List Byte)
  | none, [], _ => some []
  | some _, [], _ => none
  | none, c :: format, args =>
      if c = charByte '%' then sprintfLoop (some 0) format args
      else (sprintfLoop none format args).map (c :: ·)
  | some width, c :: format, args =>
      if IsDigit c then sprintfLoop (some (widthStep width c)) format args
      else do
        let (stored, args) ← sprintfDirective width c args
        (sprintfLoop none format args).map (stored ++ ·)

/-- The characters `sprintf` stores, without the zero behind them. -/
def sprintfStored (format : List Byte) (args : List Arg) : Option (List Byte) :=
  sprintfLoop none format args

/-- `sprintf` itself: the memory after the call and the position returned. -/
def sprintf (memory : Memory) (str : Nat) (format : List Byte) (args : List Arg) :
    Option (Memory × Nat) :=
  (sprintfStored format args).map fun stored =>
    (writeBytes memory str (stored ++ [0]), stored.length)

def performCall (console : Console) : ConsoleCall → Console
  | .put c => vgaPut console c whiteOnBlack
  | .newline => vgaNewline console

def printfConsole (console : Console) (format : List Byte) (args : List Arg) : Option Console :=
  (printf format args).map (run performCall console)

theorem printf_char_directive (console : Console) (value : UInt32) :
    printfConsole console [charByte '%', charByte 'c'] [.word value] =
      some (printfChar value.toUInt8 console) := by
  have calls : printf [charByte '%', charByte 'c'] [.word value] =
      some [putOrNewline value.toUInt8] := rfl
  rw [printfConsole, calls, Option.map_some, run_cons, run_nil, putOrNewline, printfChar]
  by_cases lineBreak : IsLineBreak value.toUInt8
  · rw [if_pos lineBreak, if_pos (show _ ∨ _ from lineBreak)]
    rfl
  · rw [if_neg lineBreak, if_neg (show ¬ (_ ∨ _) from lineBreak)]
    rfl

end LumenOS.StdioModel
