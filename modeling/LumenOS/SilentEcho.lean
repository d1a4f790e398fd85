import LumenOS.EndOfInterrupt

/-!
# What typing shows

The ring's cells are never stored to, so the loop of `kmain` takes zeros out
of it and prints none. Whatever the interleaving of interrupts with the three
actions of a loop pass, the screen is what Enter, Backspace and the arrows make
of it inside the handler, in the order in which the handler runs read them.
-/

namespace LumenOS.SilentEcho

open LumenOS.ByteMemory LumenOS.ConsoleModel LumenOS.KeyboardModel LumenOS.StepRuns
open LumenOS.EndOfInterrupt

set_option autoImplicit false

def translated (machine : Machine) : MachineEvent → List Byte
  | .interrupt vector scancode => if vector.val = 33 then [scancode] else []
  | .loopStep scancode => if machine.point = .handler then [scancode] else []

def translations : Machine → List MachineEvent → List Byte
  | _, [] => []
  | machine, event :: events =>
      translated machine event ++ translations (machineStep machine event) events

/-- What an acting key does to the screen; it does not look at the shift flag. -/
def actStep (console : Console) (scancode : Byte) : Console :=
  (keyStep ⟨console, 0⟩ scancode).console

theorem key_step_console (keys : Keys) (scancode : Byte) :
    (keyStep keys scancode).console =
      if ActsOnScreen scancode then actStep keys.console scancode else keys.console := by
  by_cases acts : ActsOnScreen scancode
  · rw [if_pos acts]
    simp only [ActsOnScreen, List.mem_cons, List.not_mem_nil, or_false] at acts
    rcases acts with rfl | rfl | rfl | rfl | rfl | rfl <;> rfl
  · rw [if_neg acts]
    exact get_char_console scancode keys acts

theorem key_steps_console (scancodes : List Byte) (keys : Keys) :
    (scancodes.foldl keyStep keys).console =
      (scancodes.filter fun scancode => ActsOnScreen scancode).foldl actStep keys.console := by
  induction scancodes generalizing keys with
  | nil => rfl
  | cons scancode scancodes ih =>
      rw [List.foldl_cons, ih, key_step_console]
      by_cases acts : ActsOnScreen scancode
      · rw [if_pos acts, List.filter_cons_of_pos (by simpa using acts), List.foldl_cons]
      · rw [if_neg acts, List.filter_cons_of_neg (by simpa using acts)]

/-- Every cell of the ring is still the zero it started with. -/
def CellsZero (kernel : Kernel) : Prop := ∀ i, kernel.ring.kbdBuffer i = 0

section Kernel

variable {kernel : Kernel}

theorem store_keys (scancode : Byte) (kernel : Kernel) :
    (keyboardStore scancode kernel).keys = keyStep kernel.keys scancode ∧
      (keyboardStore scancode kernel).ring.kbdBuffer = kernel.ring.kbdBuffer := by
  unfold keyboardStore keyStep
  dsimp only
  split_ifs <;> exact ⟨rfl, rfl⟩

theorem handler_keys (scancode : Byte) (kernel : Kernel) :
    (keyboardHandler scancode kernel).keys = keyStep kernel.keys scancode ∧
      (keyboardHandler scancode kernel).ring.kbdBuffer = kernel.ring.kbdBuffer := by
  rw [keyboard_handler_acknowledges]
  exact store_keys scancode kernel

theorem getc_zero (zero : CellsZero kernel) : (keyboardGetc kernel).1 = 0 := by
  unfold keyboardGetc
  split_ifs
  · rfl
  · exact zero _

/-- A pass of the loop takes a zero or nothing, and prints neither. -/
theorem echo_silent (zero : CellsZero kernel) :
    (kmainEcho kernel).keys = kernel.keys ∧
      (kmainEcho kernel).ring.kbdBuffer = kernel.ring.kbdBuffer := by
  have taken := getc_zero zero
  unfold kmainEcho
  rw [show keyboardGetc kernel = (0, (keyboardGetc kernel).2) from Prod.ext taken rfl]
  dsimp only
  rw [if_neg (not_not_intro rfl)]
  unfold keyboardGetc
  split_ifs <;> exact ⟨rfl, rfl⟩

theorem isr_keys (intNo : Nat) (scancode : Byte) (kernel : Kernel)
    (hardware : 32 ≤ intNo ∧ intNo ≤ 47) :
    (isrHandler intNo scancode kernel).keys =
        (if intNo = 33 then [scancode] else []).foldl keyStep kernel.keys ∧
      (isrHandler intNo scancode kernel).ring.kbdBuffer = kernel.ring.kbdBuffer := by
  have handled := handler_keys scancode kernel
  unfold isrHandler
  rw [if_neg (show ¬ intNo = 128 by omega), if_pos hardware]
  dsimp only
  by_cases keyboard : intNo = 33
  · rw [if_pos keyboard, if_pos keyboard, if_neg (show ¬ 40 ≤ intNo by omega)]
    exact handled
  · rw [if_neg keyboard, if_neg keyboard]
    split_ifs <;> exact ⟨rfl, rfl⟩

end Kernel

theorem machine_step_keys (machine : Machine) (event : MachineEvent)
    (zero : CellsZero machine.kernel) :
    (machineStep machine event).kernel.keys =
        (translated machine event).foldl keyStep machine.kernel.keys ∧
      CellsZero (machineStep machine event).kernel := by
  cases event with
  | interrupt vector scancode =>
      obtain ⟨keys, cells⟩ := isr_keys vector.val scancode machine.kernel vector.property
      refine ⟨keys, ?_⟩
      intro i
      exact (congrFun cells i).trans (zero i)
  | loopStep scancode =>
      cases point : machine.point with
      | handler =>
          obtain ⟨keys, cells⟩ := store_keys scancode machine.kernel
          simp only [machineStep, translated, point, if_true]
          exact ⟨keys, fun i => (congrFun cells i).trans (zero i)⟩
      | acknowledge =>
          simp only [machineStep, translated, point]
          exact ⟨rfl, zero⟩
      | echo =>
          obtain ⟨keys, cells⟩ := echo_silent zero
          simp only [machineStep, translated, point]
          exact ⟨keys, fun i => (congrFun cells i).trans (zero i)⟩

theorem run_keys (machine : Machine) (events : List MachineEvent)
    (zero : CellsZero machine.kernel) :
    (run machineStep machine events).kernel.keys =
        (translations machine events).foldl keyStep machine.kernel.keys ∧
      CellsZero (run machineStep machine events).kernel := by
  induction events generalizing machine with
  | nil => exact ⟨rfl, zero⟩
  | cons event events ih =>
      obtain ⟨keys, still⟩ := machine_step_keys machine event zero
      obtain ⟨later, ended⟩ := ih (machineStep machine event) still
      rw [run_cons, translations, List.foldl_append, ← keys]
      exact ⟨later, ended⟩

def acting (machine : Machine) (events : List MachineEvent) : List Byte :=
  (translations machine events).filter fun scancode => ActsOnScreen scancode

/-- Nothing comes out of the ring, the screen is that of the acting keys, and
so two runs with the same acting keys show the same. -/
structure Silent (machine : Machine) (events : List MachineEvent) : Prop where
  drained : (keyboardGetc (run machineStep machine events).kernel).1 = 0
  shown : (run machineStep machine events).kernel.keys.console =
    (acting machine events).foldl actStep machine.kernel.keys.console
  hidden : ∀ others, acting machine others = acting machine events →
    (run machineStep machine others).kernel.keys.console =
      (run machineStep machine events).kernel.keys.console

theorem run_console (machine : Machine) (events : List MachineEvent)
    (zero : CellsZero machine.kernel) :
    (run machineStep machine events).kernel.keys.console =
      (acting machine events).foldl actStep machine.kernel.keys.console := by
  rw [(run_keys machine events zero).1]
  exact key_steps_console _ _

theorem typing_never_shows (kernel : Kernel) (zero : CellsZero kernel)
    (events : List MachineEvent) : Silent (initialMachine kernel) events := by
  constructor
  · exact getc_zero (run_keys (initialMachine kernel) events zero).2
  · exact run_console (initialMachine kernel) events zero
  · intro others same
    rw [run_console (initialMachine kernel) others zero, same]
    exact (run_console (initialMachine kernel) events zero).symm

/-- A letter, its interrupt, the loop and Enter. -/
theorem typing_never_shows_letter :
    Silent (initialMachine bootKernel)
      [.interrupt ⟨33, by decide⟩ 0x1E, .loopStep 0x1E, .loopStep 0x1E, .loopStep 0x1E,
        .interrupt ⟨33, by decide⟩ 0x1C] :=
  typing_never_shows bootKernel (fun _ => rfl) _

end LumenOS.SilentEcho
