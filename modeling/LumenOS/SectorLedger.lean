import LumenOS.WriteHistory

/-!
# A disk as the ledger of its accepted writes

What a caller of a block device may know of it: which requests are accepted
and what a read of an accepted range delivers, given the writes accepted
before. A device may deliver less than it holds, so what is seen of the bytes
is a parameter. The rest of the program stores bytes of its own in between.
-/

namespace LumenOS.SectorLedger

open LumenOS.ByteMemory LumenOS.StepRuns LumenOS.WriteHistory

set_option autoImplicit false

inductive Call where
  | read (sector buf count : Nat)
  | write (sector buf count : Nat)
  /-- Bytes stored by the rest of the program. -/
  | store (address : Nat) (bytes : List Byte)

/-- The capacity in sectors, the buffers that are taken, and what a read shows
of the bytes on the device. -/
structure Manner where
  capacity : Nat
  takes : Nat → Bool
  seen : (Nat → Byte) → Nat → Byte

def sectorBytes : Nat := 512

structure Ledger where
  history : List (Write Byte)
  memory : Memory
  codes : List Int

def emptyLedger (memory : Memory) : Ledger := ⟨[], memory, []⟩

def Manner.Accepts (manner : Manner) (sector buf count : Nat) : Prop :=
  manner.takes buf = true ∧ sector + count ≤ manner.capacity

instance (manner : Manner) (sector buf count : Nat) : Decidable (manner.Accepts sector buf count) :=
  inferInstanceAs (Decidable (_ ∧ _))

def Manner.shown (manner : Manner) (initial : Nat → Byte) (history : List (Write Byte))
    (sector count : Nat) : List Byte :=
  window (manner.seen (current initial history)) (sector * sectorBytes) (count * sectorBytes)

def Ledger.refuse (ledger : Ledger) : Ledger := { ledger with codes := ledger.codes ++ [-1] }

def ledgerStep (manner : Manner) (initial : Nat → Byte) (ledger : Ledger) : Call → Ledger
  | .read sector buf count =>
      if manner.Accepts sector buf count then
        { ledger with
          memory := writeBytes ledger.memory buf (manner.shown initial ledger.history sector count)
          codes := ledger.codes ++ [0] }
      else ledger.refuse
  | .write sector buf count =>
      if manner.Accepts sector buf count then
        { ledger with
          history := ledger.history ++
            [⟨sector * sectorBytes, readBytes ledger.memory buf (count * sectorBytes)⟩]
          codes := ledger.codes ++ [0] }
      else ledger.refuse
  | .store address bytes => { ledger with memory := writeBytes ledger.memory address bytes }

section Steps

variable (manner : Manner) (initial : Nat → Byte) (ledger : Ledger) {sector buf count : Nat}

theorem ledger_reads (accepted : manner.Accepts sector buf count) :
    ledgerStep manner initial ledger (.read sector buf count) =
      ⟨ledger.history,
        writeBytes ledger.memory buf (manner.shown initial ledger.history sector count),
        ledger.codes ++ [0]⟩ := if_pos accepted

theorem ledger_writes (accepted : manner.Accepts sector buf count) :
    ledgerStep manner initial ledger (.write sector buf count) =
      ⟨ledger.history ++
          [⟨sector * sectorBytes, readBytes ledger.memory buf (count * sectorBytes)⟩],
        ledger.memory, ledger.codes ++ [0]⟩ := if_pos accepted

theorem ledger_refuses_read (refused : ¬ manner.Accepts sector buf count) :
    ledgerStep manner initial ledger (.read sector buf count) = ledger.refuse := if_neg refused

theorem ledger_refuses_write (refused : ¬ manner.Accepts sector buf count) :
    ledgerStep manner initial ledger (.write sector buf count) = ledger.refuse := if_neg refused

end Steps

end LumenOS.SectorLedger
