import LumenOS.ConsoleModel
import LumenOS.StepRuns

/-!
# The hardware cursor under interrupts

`vga_pos` stores the column and the row and then reaches the display
controller through two ports, one that selects a register and one for its
value. Between any two of these stores an interrupt may run whole calls of
`vga_pos`, with interrupts disabled, and return. What the hardware shows
afterwards depends on how far the interrupted call had come.
-/

namespace LumenOS.CursorTearing

open LumenOS.ByteMemory LumenOS.ConsoleModel LumenOS.StepRuns

set_option autoImplicit false

section Controller

structure Crtc where
  index : Byte
  regs : Byte → Byte

def outb (port : Nat) (value : Byte) (crtc : Crtc) : Crtc :=
  if port = 0x3D4 then { crtc with index := value }
  else if port = 0x3D5 then
    { crtc with regs := fun other => if other = crtc.index then value else crtc.regs other }
  else crtc

def inb (port : Nat) (crtc : Crtc) : Byte :=
  if port = 0x3D4 then crtc.index
  else if port = 0x3D5 then crtc.regs crtc.index
  else 0xFF

def vgaCursorSetmode (enable : Byte) (crtc : Crtc) : Crtc :=
  if enable ≠ 0 then
    let crtc := outb 0x3D4 0x0A crtc
    let crtc := outb 0x3D5 ((inb 0x3D5 crtc &&& 0xC0) ||| 0) crtc
    let crtc := outb 0x3D4 0x0B crtc
    outb 0x3D5 ((inb 0x3D5 crtc &&& 0xE0) ||| 15) crtc
  else
    let crtc := outb 0x3D4 0x0A crtc
    outb 0x3D5 0x20 crtc

/-- The cursor location registers, high byte and low byte. -/
def Crtc.location (crtc : Crtc) : Nat := (crtc.regs 0x0E).toNat * 256 + (crtc.regs 0x0F).toNat

variable (value : Byte) (crtc : Crtc)

theorem outb_index : outb 0x3D4 value crtc = { crtc with index := value } := if_pos rfl

theorem outb_data : outb 0x3D5 value crtc =
    { crtc with regs := fun other => if other = crtc.index then value else crtc.regs other } := by
  unfold outb
  rw [if_neg (by decide), if_pos rfl]

/-- The mode that is set: the cursor on, from scan line 0 to 15. -/
def modeSet (regs : Byte → Byte) (register : Byte) : Byte :=
  if register = 0x0B then regs 0x0B &&& 0xE0 ||| 15
  else if register = 0x0A then regs 0x0A &&& 0xC0
  else regs register

theorem setmode_regs : (vgaCursorSetmode 1 crtc).regs = modeSet crtc.regs := by
  funext register
  unfold vgaCursorSetmode modeSet
  rw [if_pos (by decide)]
  simp only [outb_index, outb_data, inb]
  by_cases last : register = 0x0B
  · rw [if_pos last, if_pos last]
    rfl
  · rw [if_neg last, if_neg last]
    by_cases first : register = 0x0A
    · rw [if_pos first, if_pos first]
      exact UInt8.or_zero
    · rw [if_neg first, if_neg first]

end Controller

section Calls

/-- A column and a row as `vga_pos` takes them. -/
abbrev Position := Byte × Byte

def position (place : Position) : Nat := u16 (place.2.toNat * vgaWidth + place.1.toNat)

def lowPart (place : Position) : Byte := UInt8.ofNat (position place &&& 0xFF)

def highPart (place : Position) : Byte := UInt8.ofNat ((position place >>> 8) &&& 0xFF)

structure Screen where
  col : Byte
  row : Byte
  crtc : Crtc

inductive Action where
  | storeCol (value : Byte)
  | storeRow (value : Byte)
  | out (port : Nat) (value : Byte)

def act (screen : Screen) : Action → Screen
  | .storeCol value => { screen with col := value }
  | .storeRow value => { screen with row := value }
  | .out port value => { screen with crtc := outb port value screen.crtc }

def vgaCursorPos (place : Position) : List Action :=
  [.out 0x3D4 0x0F, .out 0x3D5 (lowPart place), .out 0x3D4 0x0E, .out 0x3D5 (highPart place)]

def vgaPos (place : Position) : List Action :=
  .storeCol place.1 :: .storeRow place.2 :: vgaCursorPos place

/-- The parts join to the position again. -/
theorem parts_join (place : Position) :
    (highPart place).toNat * 256 + (lowPart place).toNat = position place := by
  have colBound := place.1.toNat_lt
  have rowBound := place.2.toNat_lt
  have bounded : position place < 2 ^ 16 := Nat.mod_lt _ (by decide)
  have low : position place &&& 0xFF = position place % 2 ^ 8 :=
    Nat.and_two_pow_sub_one_eq_mod _ 8
  have high : position place >>> 8 &&& 0xFF = position place >>> 8 % 2 ^ 8 :=
    Nat.and_two_pow_sub_one_eq_mod _ 8
  unfold highPart lowPart
  rw [low, high, UInt8.toNat_ofNat', UInt8.toNat_ofNat', Nat.shiftRight_eq_div_pow]
  omega

structure Placed (before after : Screen) (place : Position) : Prop where
  col : after.col = place.1
  row : after.row = place.2
  index : after.crtc.index = 0x0E
  low : after.crtc.regs 0x0F = lowPart place
  high : after.crtc.regs 0x0E = highPart place
  others : ∀ register, register ≠ 0x0E → register ≠ 0x0F →
    after.crtc.regs register = before.crtc.regs register

theorem vga_pos_placed (screen : Screen) (place : Position) :
    Placed screen (run act screen (vgaPos place)) place := by
  simp only [vgaPos, vgaCursorPos, run_cons, run_nil, act, outb_index, outb_data]
  refine ⟨rfl, rfl, rfl, rfl, rfl, ?_⟩
  intro register notHigh notLow
  dsimp only
  rw [if_neg notHigh, if_neg notLow]

theorem calls_placed (screen : Screen) (calls : List Position) (last : Position) :
    Placed screen (run act screen ((calls ++ [last]).flatMap vgaPos)) last := by
  induction calls generalizing screen with
  | nil =>
      rw [List.nil_append, List.flatMap_singleton]
      exact vga_pos_placed screen last
  | cons call calls ih =>
      have first := vga_pos_placed screen call
      rw [List.cons_append, List.flatMap_cons, run_append]
      obtain ⟨col, row, index, low, high, others⟩ := ih (run act screen (vgaPos call))
      refine ⟨col, row, index, low, high, ?_⟩
      intro register notHigh notLow
      rw [others register notHigh notLow, first.others register notHigh notLow]

theorem location_agrees (screen : Screen) (place : Position) (console : Console) :
    (run act screen (vgaPos place)).crtc.location =
      (ConsoleModel.vgaPos console place.1.toNat place.2.toNat).cursorLocation := by
  have placed := vga_pos_placed screen place
  have colBound := place.1.toNat_lt
  have rowBound := place.2.toNat_lt
  unfold Crtc.location
  rw [placed.low, placed.high, parts_join]
  unfold position
  simp only [ConsoleModel.vgaPos, ConsoleModel.vgaCursorPos, toUChar, vgaWidth]
  apply congrArg u16
  omega

end Calls

section Kernel

/-- The call the kernel is in, as what is left of it. -/
structure Kernel where
  screen : Screen
  pending : List Action

inductive Event where
  /-- The kernel calls `vga_pos`, when no call is under way. -/
  | call (place : Position)
  | step
  /-- The keyboard interrupt, with the calls its handler makes. -/
  | interrupt (calls : List Position)

def kernelStep (kernel : Kernel) : Event → Kernel
  | .call place =>
      if kernel.pending.isEmpty then { kernel with pending := vgaPos place } else kernel
  | .step =>
      match kernel.pending with
      | [] => kernel
      | action :: rest => ⟨act kernel.screen action, rest⟩
  | .interrupt calls => { kernel with screen := run act kernel.screen (calls.flatMap vgaPos) }

/-- What `kmain` does before it enables interrupts. -/
def bootScreen (screen : Screen) : Screen :=
  run act { screen with crtc := vgaCursorSetmode 1 screen.crtc } (vgaPos (0, 0))

def bootKernel (screen : Screen) : Kernel := ⟨bootScreen screen, []⟩

/-- The calls without their ports: how many actions of the last call are done,
how many were when an interrupt last placed the cursor, and where both put it. -/
structure Schedule where
  main : Position
  done : Nat
  cut : Nat
  last : Position

def bootSchedule : Schedule := ⟨(0, 0), 6, 0, (0, 0)⟩

def scheduleStep (schedule : Schedule) : Event → Schedule
  | .call place =>
      if schedule.done = 6 then { schedule with main := place, done := 0, cut := 0 } else schedule
  | .step => if schedule.done < 6 then { schedule with done := schedule.done + 1 } else schedule
  | .interrupt calls =>
      match calls.getLast? with
      | none => schedule
      | some place => { schedule with cut := schedule.done, last := place }

/-- Whose value the action with this number left: the interrupt's, if it came
after the action. -/
def owner (main last : Position) (cut number : Nat) : Position :=
  if number ≤ cut then last else main

/-- The screen in the middle of a call. The selection of the low byte is lost
to an interrupt right behind it, and the low byte then stays the interrupt's. -/
structure Progress (regs : Byte → Byte) (screen : Screen) (main last : Position) (done cut : Nat) :
    Prop where
  within : cut ≤ done
  col : 1 ≤ done → screen.col = (owner main last cut 1).1
  row : 2 ≤ done → screen.row = (owner main last cut 2).2
  index : 3 ≤ done → screen.crtc.index = if done ≤ 4 ∧ cut < 3 then 0x0F else 0x0E
  low : 4 ≤ done ∨ 3 ≤ cut → screen.crtc.regs 0x0F = lowPart (owner main last cut 3)
  high : 6 ≤ done → screen.crtc.regs 0x0E = highPart (owner main last cut 6)
  others : ∀ register, register ≠ 0x0E → register ≠ 0x0F →
    screen.crtc.regs register = modeSet regs register

theorem owner_main (main last : Position) {cut number : Nat} (before : cut < number) :
    owner main last cut number = main := if_neg (Nat.not_le_of_lt before)

theorem owner_last (main last : Position) {cut number : Nat} (after : number ≤ cut) :
    owner main last cut number = last := if_pos after

end Kernel

section Actions

variable {regs : Byte → Byte} {screen : Screen} {main last : Position} {cut : Nat}

theorem progress_begins {done : Nat} (progress : Progress regs screen main last done cut)
    (place : Position) : Progress regs screen place last 0 0 where
  within := Nat.le_refl 0
  col := fun started => absurd started (by decide)
  row := fun started => absurd started (by decide)
  index := fun started => absurd started (by decide)
  low := fun started => absurd started (by decide)
  high := fun started => absurd started (by decide)
  others := progress.others

theorem progress_col (progress : Progress regs screen main last 0 cut) :
    Progress regs (act screen (.storeCol main.1)) main last 1 cut where
  within := Nat.le_succ_of_le progress.within
  col := fun _ => by
    rw [owner_main main last (Nat.lt_succ_of_le progress.within)]
    rfl
  row := fun started => absurd started (by decide)
  index := fun started => absurd started (by decide)
  low := fun started => by
    have early := progress.within
    omega
  high := fun started => absurd started (by decide)
  others := progress.others

theorem progress_row (progress : Progress regs screen main last 1 cut) :
    Progress regs (act screen (.storeRow main.2)) main last 2 cut where
  within := Nat.le_succ_of_le progress.within
  col := fun _ => progress.col (by decide)
  row := fun _ => by
    rw [owner_main main last (Nat.lt_succ_of_le progress.within)]
    rfl
  index := fun started => absurd started (by decide)
  low := fun started => by
    have early := progress.within
    omega
  high := fun started => absurd started (by decide)
  others := progress.others

theorem progress_select_low (progress : Progress regs screen main last 2 cut) :
    Progress regs (act screen (.out 0x3D4 0x0F)) main last 3 cut where
  within := Nat.le_succ_of_le progress.within
  col := fun _ => progress.col (by decide)
  row := fun _ => progress.row (by decide)
  index := fun _ => by
    rw [if_pos ⟨by decide, Nat.lt_succ_of_le progress.within⟩, act, outb_index]
  low := fun started => by
    have early := progress.within
    omega
  high := fun started => absurd started (by decide)
  others := by
    rw [act, outb_index]
    exact progress.others

/-- After an interrupt the low byte goes to the register of the high one. -/
theorem progress_put_low (progress : Progress regs screen main last 3 cut) :
    Progress regs (act screen (.out 0x3D5 (lowPart main))) main last 4 cut := by
  have selected : screen.crtc.index = if cut < 3 then 0x0F else 0x0E := by
    simpa using progress.index (by decide)
  rw [act, outb_data]
  constructor
  case within => exact Nat.le_succ_of_le progress.within
  case col => exact fun _ => progress.col (by decide)
  case row => exact fun _ => progress.row (by decide)
  case index => simpa using selected
  case low =>
    intro _
    by_cases early : cut < 3
    · rw [if_pos early] at selected
      rw [owner_main main last early]
      exact if_pos selected.symm
    · rw [if_neg early] at selected
      rw [← progress.low (Or.inr (Nat.le_of_not_lt early))]
      apply if_neg
      rw [selected]
      decide
  case high => exact fun started => absurd started (by decide)
  case others =>
    intro register notHigh notLow
    rw [← progress.others register notHigh notLow]
    apply if_neg
    rw [selected]
    split_ifs
    · exact notLow
    · exact notHigh

theorem progress_select_high (progress : Progress regs screen main last 4 cut) :
    Progress regs (act screen (.out 0x3D4 0x0E)) main last 5 cut where
  within := Nat.le_succ_of_le progress.within
  col := fun _ => progress.col (by decide)
  row := fun _ => progress.row (by decide)
  index := fun _ => by
    rw [if_neg fun both => absurd both.1 (by decide), act, outb_index]
  low := fun _ => by
    rw [act, outb_index]
    exact progress.low (Or.inl (by decide))
  high := fun started => absurd started (by decide)
  others := by
    rw [act, outb_index]
    exact progress.others

theorem progress_put_high (progress : Progress regs screen main last 5 cut) :
    Progress regs (act screen (.out 0x3D5 (highPart main))) main last 6 cut := by
  have selected : screen.crtc.index = 0x0E := progress.index (by decide)
  rw [act, outb_data]
  constructor
  case within => exact Nat.le_succ_of_le progress.within
  case col => exact fun _ => progress.col (by decide)
  case row => exact fun _ => progress.row (by decide)
  case index => exact fun _ => selected
  case low =>
    intro _
    rw [← progress.low (Or.inl (by decide))]
    apply if_neg
    rw [selected]
    decide
  case high =>
    intro _
    rw [owner_main main last (Nat.lt_succ_of_le progress.within)]
    exact if_pos selected.symm
  case others =>
    intro register notHigh notLow
    rw [← progress.others register notHigh notLow]
    apply if_neg
    rw [selected]
    exact notHigh

theorem progress_interrupted {done : Nat} (progress : Progress regs screen main last done cut)
    (calls : List Position) (place : Position) :
    Progress regs (run act screen ((calls ++ [place]).flatMap vgaPos)) main place done done := by
  obtain ⟨col, row, index, low, high, others⟩ := calls_placed screen calls place
  constructor
  case within => exact Nat.le_refl done
  case col =>
    intro started
    rw [owner_last main place started]
    exact col
  case row =>
    intro started
    rw [owner_last main place started]
    exact row
  case index =>
    intro started
    rw [if_neg (by omega)]
    exact index
  case low =>
    intro started
    rw [owner_last main place (by omega)]
    exact low
  case high =>
    intro ended
    rw [owner_last main place ended]
    exact high
  case others =>
    intro register notHigh notLow
    rw [others register notHigh notLow]
    exact progress.others register notHigh notLow

end Actions

section Runs

structure Follows (regs : Byte → Byte) (kernel : Kernel) (schedule : Schedule) : Prop where
  range : schedule.done ≤ 6
  pending : kernel.pending = (vgaPos schedule.main).drop schedule.done
  progress : Progress regs kernel.screen schedule.main schedule.last schedule.done schedule.cut

variable {regs : Byte → Byte} {kernel : Kernel} {schedule : Schedule}

theorem follows_idle (follows : Follows regs kernel schedule) :
    kernel.pending = [] ↔ schedule.done = 6 := by
  have range := follows.range
  have length : (vgaPos schedule.main).length = 6 := rfl
  rw [follows.pending, List.drop_eq_nil_iff, length]
  omega

theorem follows_call (follows : Follows regs kernel schedule) (place : Position) :
    Follows regs (kernelStep kernel (.call place)) (scheduleStep schedule (.call place)) := by
  have idle := follows_idle follows
  rw [← List.isEmpty_iff] at idle
  by_cases settled : schedule.done = 6
  · simp only [kernelStep, scheduleStep, if_pos settled, if_pos (idle.mpr settled)]
    exact ⟨Nat.zero_le 6, rfl, progress_begins follows.progress place⟩
  · simp only [kernelStep, scheduleStep, if_neg settled, if_neg (mt idle.mp settled)]
    exact follows

theorem follows_step (follows : Follows regs kernel schedule) :
    Follows regs (kernelStep kernel .step) (scheduleStep schedule .step) := by
  obtain ⟨screen, pending⟩ := kernel
  obtain ⟨main, done, cut, last⟩ := schedule
  obtain ⟨range, rfl, progress⟩ := follows
  match done, range with
  | 0, _ => exact ⟨Nat.le_of_ble_eq_true rfl, rfl, progress_col progress⟩
  | 1, _ => exact ⟨Nat.le_of_ble_eq_true rfl, rfl, progress_row progress⟩
  | 2, _ => exact ⟨Nat.le_of_ble_eq_true rfl, rfl, progress_select_low progress⟩
  | 3, _ => exact ⟨Nat.le_of_ble_eq_true rfl, rfl, progress_put_low progress⟩
  | 4, _ => exact ⟨Nat.le_of_ble_eq_true rfl, rfl, progress_select_high progress⟩
  | 5, _ => exact ⟨Nat.le_of_ble_eq_true rfl, rfl, progress_put_high progress⟩
  | 6, _ => exact ⟨Nat.le_refl 6, rfl, progress⟩

theorem follows_interrupt (follows : Follows regs kernel schedule) (calls : List Position) :
    Follows regs (kernelStep kernel (.interrupt calls))
      (scheduleStep schedule (.interrupt calls)) := by
  cases calls using List.reverseRecOn with
  | nil => exact follows
  | append_singleton calls place =>
      simp only [kernelStep, scheduleStep, List.getLast?_concat]
      exact ⟨follows.range, follows.pending, progress_interrupted follows.progress calls place⟩

theorem follows_boot (screen : Screen) :
    Follows screen.crtc.regs (bootKernel screen) bootSchedule := by
  obtain ⟨col, row, index, low, high, others⟩ :=
    vga_pos_placed { screen with crtc := vgaCursorSetmode 1 screen.crtc } (0, 0)
  refine ⟨by decide, rfl, Nat.zero_le 6, fun _ => col, fun _ => row, fun _ => index, fun _ => low,
    fun _ => high, ?_⟩
  intro register notHigh notLow
  rw [← setmode_regs]
  exact others register notHigh notLow

theorem follows_run (screen : Screen) (events : List Event) :
    Follows screen.crtc.regs (run kernelStep (bootKernel screen) events)
      (run scheduleStep bootSchedule events) := by
  apply run_related _ _ _ (follows_boot screen)
  intro kernel schedule event follows
  cases event with
  | call place => exact follows_call follows place
  | step => exact follows_step follows
  | interrupt calls => exact follows_interrupt follows calls

/-- `vga_row` and `vga_col` as a location. -/
def Screen.software (screen : Screen) : Nat := position (screen.col, screen.row)

/-- An interrupt between the two stores moved the column, one behind them has
been given the high byte of another call. -/
def Schedule.Whole (schedule : Schedule) : Prop :=
  match schedule.cut with
  | 0 | 6 => True
  | 1 => position (schedule.last.1, schedule.main.2) = position schedule.main
  | 2 => position schedule.last = position schedule.main
  | _ => highPart schedule.last = highPart schedule.main

structure Outcome (regs : Byte → Byte) (screen : Screen) (schedule : Schedule) : Prop where
  software : screen.software = position
    ((owner schedule.main schedule.last schedule.cut 1).1,
      (owner schedule.main schedule.last schedule.cut 2).2)
  location : screen.crtc.location =
    (highPart (owner schedule.main schedule.last schedule.cut 6)).toNat * 256 +
      (lowPart (owner schedule.main schedule.last schedule.cut 3)).toNat
  agrees : screen.crtc.location = screen.software ↔ schedule.Whole
  others : ∀ register, register ≠ 0x0E → register ≠ 0x0F →
    screen.crtc.regs register = modeSet regs register

theorem location_owned {done : Nat} {screen : Screen} {main last : Position} {cut : Nat}
    (progress : Progress regs screen main last done cut) (ended : 6 ≤ done) :
    screen.crtc.location =
      (highPart (owner main last cut 6)).toNat * 256 + (lowPart (owner main last cut 3)).toNat := by
  unfold Crtc.location
  rw [progress.high ended, progress.low (Or.inl (by omega))]

/-- Two locations with one low byte are the same where their high bytes are. -/
theorem torn_agrees_iff (main last : Position) :
    (highPart main).toNat * 256 + (lowPart last).toNat = position last ↔
      highPart last = highPart main := by
  rw [← parts_join last]
  constructor
  · intro same
    apply UInt8.toNat_inj.mp
    omega
  · intro same
    rw [same]

theorem owners_agree_iff (schedule : Schedule) (range : schedule.cut ≤ 6) :
    (highPart (owner schedule.main schedule.last schedule.cut 6)).toNat * 256 +
        (lowPart (owner schedule.main schedule.last schedule.cut 3)).toNat =
      position ((owner schedule.main schedule.last schedule.cut 1).1,
        (owner schedule.main schedule.last schedule.cut 2).2) ↔ schedule.Whole := by
  obtain ⟨main, done, cut, last⟩ := schedule
  unfold owner Schedule.Whole
  match cut, range with
  | 0, _ => exact iff_of_true (parts_join main) trivial
  | 1, _ =>
      simp only [Nat.reduceLeDiff, if_true, if_false, parts_join]
      exact eq_comm
  | 2, _ =>
      simp only [Nat.reduceLeDiff, if_true, if_false, parts_join]
      exact eq_comm
  | 3, _ => exact torn_agrees_iff main last
  | 4, _ => exact torn_agrees_iff main last
  | 5, _ => exact torn_agrees_iff main last
  | 6, _ => exact iff_of_true (parts_join last) trivial

/-- In every run, when no call is under way the hardware cursor is at the
software cursor exactly if the last call was left whole; the mode and the other
registers are as `kmain` set them. -/
theorem cursor_after_interrupts (screen : Screen) (events : List Event)
    (settled : (run kernelStep (bootKernel screen) events).pending = []) :
    Outcome screen.crtc.regs (run kernelStep (bootKernel screen) events).screen
      (run scheduleStep bootSchedule events) := by
  have follows := follows_run screen events
  have ended := (follows_idle follows).mp settled
  have progress := follows.progress
  rw [ended] at progress
  have location := location_owned progress (Nat.le_refl 6)
  have software : (run kernelStep (bootKernel screen) events).screen.software = _ :=
    congrArg₂ (fun col row => position (col, row)) (progress.col (by decide))
      (progress.row (by decide))
  refine ⟨software, location, ?_, progress.others⟩
  rw [location, software]
  exact owners_agree_iff _ progress.within

/-- Torn behind the first port write: the low byte is the interrupt's, the high
byte the call's. -/
theorem cursor_after_interrupts_torn :
    Outcome (fun _ => 0)
      (run kernelStep (bootKernel ⟨0, 0, 0, fun _ => 0⟩)
        [.call (10, 0), .step, .step, .step, .interrupt [(0, 20)], .step, .step, .step]).screen
      (run scheduleStep bootSchedule
        [.call (10, 0), .step, .step, .step, .interrupt [(0, 20)], .step, .step, .step]) :=
  cursor_after_interrupts ⟨0, 0, 0, fun _ => 0⟩
    [.call (10, 0), .step, .step, .step, .interrupt [(0, 20)], .step, .step, .step] rfl

end Runs

end LumenOS.CursorTearing
