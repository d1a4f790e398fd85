import LumenOS.ByteMemory

/-!
# The transmitting half of a serial port chip

Registers are selected by an offset of zero to seven; the divisor latch bit of
the line control register turns the first two into the divisor. Characters
wait in a first-in first-out store of sixteen places, or of one where the
store is off. A character written to a full store is lost.
-/

namespace LumenOS.UartDevice

open LumenOS.ByteMemory

set_option autoImplicit false

/-- A character on the line, with the divisor and the format it was sent under. -/
structure Frame where
  byte : Byte
  divisor : Nat
  format : Byte
  deriving DecidableEq

structure Uart where
  ier : Byte
  fcr : Byte
  lcr : Byte
  mcr : Byte
  divisorLow : Byte
  divisorHigh : Byte
  fifo : List Byte
  wire : List Frame
  lost : List Byte

namespace Uart

def capacity (uart : Uart) : Nat := if uart.fcr.toNat.testBit 0 then 16 else 1

def divisorLatch (uart : Uart) : Bool := uart.lcr.toNat.testBit 7

def divisor (uart : Uart) : Nat := uart.divisorLow.toNat + 256 * uart.divisorHigh.toNat

def enqueue (uart : Uart) (byte : Byte) : Uart :=
  if uart.fifo.length < uart.capacity then { uart with fifo := uart.fifo ++ [byte] }
  else { uart with lost := uart.lost ++ [byte] }

def write (uart : Uart) (register : Nat) (value : Byte) : Uart :=
  match register with
  | 0 => if uart.divisorLatch then { uart with divisorLow := value } else uart.enqueue value
  | 1 =>
      if uart.divisorLatch then { uart with divisorHigh := value }
      else { uart with ier := value }
  | 2 =>
      { uart with
        fcr := value
        fifo := if value.toNat.testBit 2 then [] else uart.fifo }
  | 3 => { uart with lcr := value }
  | 4 => { uart with mcr := value }
  | _ => uart

theorem write_low_latched (uart : Uart) (on : uart.divisorLatch = true) (value : Byte) :
    uart.write 0 value = { uart with divisorLow := value } := if_pos on

theorem write_high_latched (uart : Uart) (on : uart.divisorLatch = true) (value : Byte) :
    uart.write 1 value = { uart with divisorHigh := value } := if_pos on

/-- The line status register; bit 5 tells that the store is empty, the other
bits may be anything. -/
def lineStatus (uart : Uart) (others : Byte) : Byte :=
  if uart.fifo.isEmpty then others ||| 0x20 else others &&& 0xDF

def frame (uart : Uart) (byte : Byte) : Frame := ⟨byte, uart.divisor, uart.lcr⟩

def shift (uart : Uart) : Uart :=
  match uart.fifo with
  | [] => uart
  | byte :: rest => { uart with fifo := rest, wire := uart.wire ++ [uart.frame byte] }

def drain (uart : Uart) : Uart :=
  { uart with fifo := [], wire := uart.wire ++ uart.fifo.map uart.frame }

theorem ready_iff (uart : Uart) (others : Byte) :
    uart.lineStatus others &&& 0x20 ≠ 0 ↔ uart.fifo = [] := by
  have set : (others ||| 0x20) &&& 0x20 = 0x20 := by
    apply UInt8.eq_of_toBitVec_eq
    apply BitVec.eq_of_getLsbD_eq
    intro i _
    simp only [UInt8.toBitVec_and, UInt8.toBitVec_or, BitVec.getLsbD_and, BitVec.getLsbD_or]
    exact Bool.and_eq_right_iff_imp.mpr fun set => by rw [set, Bool.or_true]
  have cleared : (others &&& 0xDF) &&& 0x20 = 0 := by
    rw [UInt8.and_assoc]
    exact UInt8.and_zero
  unfold lineStatus
  cases waiting : uart.fifo with
  | nil => simp [set]
  | cons byte rest => simp [cleared]

end Uart

end LumenOS.UartDevice
