import LumenOS.ByteMemory
import LumenOS.StepRuns
import Mathlib.Data.List.FinRange
import Mathlib.Logic.Function.Basic

/-!
# A cascaded pair of 8259 interrupt controllers

Each chip is programmed through a command and a data port: an initialisation
command opens a sequence of two or three data bytes, after which the data port
is the interrupt mask. Priorities are fixed and nested. The request output of
the slave is level 2 of the master. Special fully nested mode, rotation,
polling and reading registers back are not modelled.
-/

namespace LumenOS.InterruptControllers

open LumenOS.ByteMemory LumenOS.StepRuns

set_option autoImplicit false

abbrev Level := Fin 8

/-- The initialisation byte the data port takes next, if any. -/
inductive Awaiting where
  | icw2
  | icw3
  | icw4
  | nothing
  deriving DecidableEq

/-- Everything in a chip that port writes and acknowledgements decide. -/
structure Settings where
  vectorBase : Nat
  mask : Byte
  cascade : Byte
  awaiting : Awaiting
  needsIcw4 : Bool
  single : Bool
  autoEoi : Bool
  inService : Level → Bool

structure Chip where
  settings : Settings
  requests : Level → Bool

def levels : List Level := List.finRange 8

def bit (value : Byte) (i : Nat) : Bool := value.toNat.testBit i

def Settings.served (settings : Settings) : Option Level := levels.find? settings.inService

def Settings.clear (settings : Settings) (level : Level) : Settings :=
  { settings with inService := fun other => other != level && settings.inService other }

def afterIcw3 (needsIcw4 : Bool) : Awaiting := if needsIcw4 then .icw4 else .nothing

/-- The command port: an initialisation command, an operation command three,
which changes nothing here, or an operation command two. -/
def Settings.command (settings : Settings) (value : Byte) : Settings :=
  if bit value 4 then
    { settings with
      mask := 0
      awaiting := .icw2
      needsIcw4 := bit value 0
      single := bit value 1
      autoEoi := false
      inService := fun _ => false }
  else if bit value 3 then settings
  else if bit value 5 then
    if bit value 6 then settings.clear ⟨value.toNat % 8, Nat.mod_lt _ (by decide)⟩
    else settings.served.elim settings settings.clear
  else settings

def Settings.data (settings : Settings) (value : Byte) : Settings :=
  match settings.awaiting with
  | .icw2 =>
      { settings with
        vectorBase := value.toNat / 8 * 8
        awaiting := if settings.single then afterIcw3 settings.needsIcw4 else .icw3 }
  | .icw3 => { settings with cascade := value, awaiting := afterIcw3 settings.needsIcw4 }
  | .icw4 => { settings with autoEoi := bit value 1, awaiting := .nothing }
  | .nothing => { settings with mask := value }

/-- An initialisation command also forgets the edges seen so far. -/
def Chip.command (chip : Chip) (value : Byte) : Chip where
  settings := chip.settings.command value
  requests := if bit value 4 then fun _ => false else chip.requests

def Chip.data (chip : Chip) (value : Byte) : Chip :=
  { chip with settings := chip.settings.data value }

/-- A level may interrupt if it is not masked and nothing of its priority or
above is in service. -/
def Settings.admits (settings : Settings) (level : Level) : Bool :=
  settings.awaiting == .nothing && !bit settings.mask level &&
    levels.all fun served => !settings.inService served || decide (level < served)

def Settings.next (settings : Settings) (requests : Level → Bool) : Option Level :=
  levels.find? fun level => requests level && settings.admits level

def Settings.take (settings : Settings) (level : Level) : Settings :=
  { settings with
    inService := fun other => settings.inService other || (other == level && !settings.autoEoi) }

/-- The level is taken into service and its edge is used up. -/
def Chip.take (chip : Chip) (level : Level) : Chip where
  settings := chip.settings.take level
  requests := fun other => other != level && chip.requests other

structure Pair where
  master : Chip
  slave : Chip

def slaveLevel : Level := 2

def Pair.slaveNext (pair : Pair) : Option Level := pair.slave.settings.next pair.slave.requests

def Pair.masterRequests (pair : Pair) : Level → Bool :=
  fun level => if level = slaveLevel then pair.slaveNext.isSome else pair.master.requests level

def Pair.masterNext (pair : Pair) : Option Level :=
  pair.master.settings.next pair.masterRequests

/-- The vector a chip puts on the bus and the chip afterwards. A request that is
gone by then reads as level 7 and takes nothing into service. -/
def Chip.answer (chip : Chip) (next : Option Level) : Nat × Chip :=
  match next with
  | none => (chip.settings.vectorBase + 7, chip)
  | some level => (chip.settings.vectorBase + level.val, chip.take level)

/-- The processor acknowledges an interrupt. Where the master hands over to a
slave of another identity no chip drives the bus. -/
def Pair.acknowledge (pair : Pair) : Option Nat × Pair :=
  let (vector, master) := pair.master.answer pair.masterNext
  if pair.masterNext = some slaveLevel ∧ bit pair.master.settings.cascade 2 then
    if pair.slave.settings.cascade.toNat % 8 = 2 then
      let (vector, slave) := pair.slave.answer pair.slaveNext
      (some vector, { master, slave })
    else (none, { pair with master })
  else (some vector, { pair with master })

/-- A line is an input of the master from 0 to 7, of the slave from 8 to 15. -/
abbrev Line := Fin 16

def setRequest (chip : Chip) (level : Level) (requested : Bool) : Chip :=
  { chip with requests := Function.update chip.requests level requested }

def Pair.setLine (pair : Pair) (line : Line) (requested : Bool) : Pair :=
  if low : line.val < 8 then
    { pair with master := setRequest pair.master ⟨line.val, low⟩ requested }
  else { pair with slave := setRequest pair.slave ⟨line.val - 8, by omega⟩ requested }

inductive PairEvent where
  | raise (line : Line)
  | withdraw (line : Line)
  | write (port : Nat) (value : Byte)

def Pair.write (pair : Pair) (port : Nat) (value : Byte) : Pair :=
  if port = 0x20 then { pair with master := pair.master.command value }
  else if port = 0x21 then { pair with master := pair.master.data value }
  else if port = 0xA0 then { pair with slave := pair.slave.command value }
  else if port = 0xA1 then { pair with slave := pair.slave.data value }
  else pair

def pairStep (pair : Pair) : PairEvent → Pair
  | .raise line => pair.setLine line true
  | .withdraw line => pair.setLine line false
  | .write port value => pair.write port value

structure PairSettings where
  master : Settings
  slave : Settings

def Pair.settings (pair : Pair) : PairSettings := ⟨pair.master.settings, pair.slave.settings⟩

def PairSettings.write (settings : PairSettings) (written : Nat × Byte) : PairSettings :=
  if written.1 = 0x20 then { settings with master := settings.master.command written.2 }
  else if written.1 = 0x21 then { settings with master := settings.master.data written.2 }
  else if written.1 = 0xA0 then { settings with slave := settings.slave.command written.2 }
  else if written.1 = 0xA1 then { settings with slave := settings.slave.data written.2 }
  else settings

@[simp] theorem set_line_settings (pair : Pair) (line : Line) (requested : Bool) :
    (pair.setLine line requested).settings = pair.settings := by
  unfold Pair.setLine
  split_ifs <;> rfl

@[simp] theorem write_settings (pair : Pair) (port : Nat) (value : Byte) :
    (pair.write port value).settings = pair.settings.write (port, value) := by
  unfold Pair.write PairSettings.write
  dsimp only
  split_ifs <;> rfl

def PairEvent.written : PairEvent → Option (Nat × Byte)
  | .write port value => some (port, value)
  | _ => none

/-- Devices may raise and withdraw requests between the writes of a driver as
they like; the settings are those of the writes alone. -/
theorem run_settings (pair : Pair) (events : List PairEvent) :
    (run pairStep pair events).settings =
      run PairSettings.write pair.settings (events.filterMap PairEvent.written) := by
  induction events generalizing pair with
  | nil => rfl
  | cons event events ih =>
      rw [run_cons, ih]
      cases event with
      | raise line => rw [List.filterMap_cons_none rfl, pairStep, set_line_settings]
      | withdraw line => rw [List.filterMap_cons_none rfl, pairStep, set_line_settings]
      | write port value =>
          have first : PairEvent.written (.write port value) = some (port, value) := rfl
          rw [List.filterMap_cons_some first, pairStep, write_settings, run_cons]

theorem next_spec {settings : Settings} {requests : Level → Bool} {level : Level}
    (found : settings.next requests = some level) :
    requests level = true ∧ settings.admits level = true := by
  have passed := List.find?_some found
  simpa using passed

theorem next_none_iff (settings : Settings) (requests : Level → Bool) :
    settings.next requests = none ↔
      ∀ level, requests level = true → settings.admits level = false := by
  unfold Settings.next
  rw [List.find?_eq_none]
  constructor
  · intro refused level requested
    simpa [requested] using refused level (List.mem_finRange level)
  · intro refused level _
    cases requested : requests level with
    | false => simp
    | true => simp [refused level requested]

/-- A chip that admits one level only decides by that level's request. -/
theorem next_of_single {settings : Settings} {requests : Level → Bool} {only : Level}
    (single : ∀ level, settings.admits level = true ↔ level = only) :
    settings.next requests = if requests only then some only else none := by
  cases found : settings.next requests with
  | none =>
      have refused := (next_none_iff settings requests).mp found only
      cases requested : requests only with
      | false => rfl
      | true =>
          have admitted := (single only).mpr rfl
          rw [refused requested] at admitted
          exact absurd admitted (by decide)
  | some level =>
      have spec := next_spec found
      have same := (single level).mp spec.2
      rw [← same, spec.1]
      rfl

end LumenOS.InterruptControllers
