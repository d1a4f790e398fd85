import LumenOS.KeyboardModel
import LumenOS.StepRuns

/-!
# Interrupts and the polling loop on one keyboard controller

The controller keeps the last byte it delivered readable at port `0x60` and
raises IRQ1 once for each. `keyboard_handler` is reached from the interrupt
and from the loop of `kmain`, and reads the port without asking whether a byte
is new. The bytes are numbered from one, zero standing for what the port holds
before the first. `keyboard_get_char` and its callers are run here with a log
to which each execution of `keyboard_get_char` adds the number of the byte it
was given; without the log they are the functions of `KeyboardModel`.
-/

namespace LumenOS.KernelLoop

open LumenOS.ByteMemory LumenOS.KeyboardModel LumenOS.StepRuns

set_option autoImplicit false

/-- What a read of port `0x60` gives: the byte, and which byte it is. -/
structure Reading where
  scancode : Byte
  number : Nat

structure LoggedKernel where
  kernel : Kernel
  executions : List Nat

def keyboardGetCharLogged (reading : Reading) (logged : LoggedKernel) : Byte × LoggedKernel :=
  let (c, keys) := keyboardGetChar reading.scancode logged.kernel.keys
  (c,
    { kernel := { logged.kernel with keys := keys }
      executions := logged.executions ++ [reading.number] })

def keyboardHandlerLogged (reading : Reading) (logged : LoggedKernel) : LoggedKernel :=
  let (c, logged) := keyboardGetCharLogged reading logged
  let kernel := logged.kernel
  let kernel :=
    if c ≠ 0 then
      let next := u8 ((kernel.ring.kbdHead + 1) % kbdBufferSize)
      if next ≠ kernel.ring.kbdTail then
        { kernel with ring := { kernel.ring with kbdHead := next } }
      else kernel
    else kernel
  { logged with kernel := outb kernel 0x20 0x20 }

def isrHandlerLogged (intNo : Nat) (reading : Reading) (logged : LoggedKernel) : LoggedKernel :=
  if intNo = 128 then logged
  else if 32 ≤ intNo ∧ intNo ≤ 47 then
    let logged := if intNo = 33 then keyboardHandlerLogged reading logged else logged
    let kernel := if 40 ≤ intNo then outb logged.kernel 0xA0 0x20 else logged.kernel
    { logged with kernel := outb kernel 0x20 0x20 }
  else logged

section Erasure

variable (reading : Reading) (logged : LoggedKernel)

theorem handler_kernel : (keyboardHandlerLogged reading logged).kernel =
    keyboardHandler reading.scancode logged.kernel := rfl

theorem handler_executions : (keyboardHandlerLogged reading logged).executions =
    logged.executions ++ [reading.number] := rfl

theorem isr_kernel (intNo : Nat) : (isrHandlerLogged intNo reading logged).kernel =
    isrHandler intNo reading.scancode logged.kernel := by
  unfold isrHandlerLogged isrHandler
  split_ifs with keyboard
  · rfl
  · rfl
  · rfl
  · rfl
  · rfl
  · rfl

/-- Vector 33 alone leads to `keyboard_get_char`, and once. -/
theorem isr_executions (intNo : Nat) : (isrHandlerLogged intNo reading logged).executions =
    logged.executions ++ if intNo = 33 then [reading.number] else [] := by
  unfold isrHandlerLogged
  by_cases keyboard : intNo = 33
  · subst keyboard
    rfl
  · rw [if_neg keyboard, if_neg keyboard, List.append_nil]
    split_ifs <;> rfl

end Erasure

structure Machine where
  logged : LoggedKernel
  port60 : Byte
  delivered : Nat
  served : Nat
  /-- The loop has called `keyboard_handler` in this pass and echoes next. -/
  polled : Bool

inductive MachineEvent where
  | deliver (byte : Byte)
  | irq1
  | loopStep

def Machine.executions (machine : Machine) : List Nat := machine.logged.executions

/-- The port gives the last byte delivered until a newer one arrives. -/
def inbPort60 (machine : Machine) : Reading := ⟨machine.port60, machine.delivered⟩

/-- An interrupt is taken only if one was raised. The two calls of a loop pass
are separate steps, so an interrupt may arrive between them. -/
def machineStep (machine : Machine) : MachineEvent → Machine
  | .deliver byte => { machine with port60 := byte, delivered := machine.delivered + 1 }
  | .irq1 =>
      if machine.served < machine.delivered then
        { machine with
          logged := isrHandlerLogged 33 (inbPort60 machine) machine.logged
          served := machine.served + 1 }
      else machine
  | .loopStep =>
      if machine.polled then
        { machine with
          logged := { machine.logged with kernel := kmainEcho machine.logged.kernel }
          polled := false }
      else
        { machine with
          logged := keyboardHandlerLogged (inbPort60 machine) machine.logged
          polled := true }

def initialMachine (kernel : Kernel) (port60 : Byte) : Machine where
  logged := ⟨kernel, []⟩
  port60 := port60
  delivered := 0
  served := 0
  polled := false

def serveAll (machine : Machine) : Machine :=
  run machineStep machine (List.replicate (machine.delivered - machine.served) .irq1)

/-- Once the raised interrupts are served, each byte delivered so far has been
translated exactly once. -/
def OnceEach (machine : Machine) : Prop :=
  ∀ byte, 1 ≤ byte → byte ≤ machine.delivered → (serveAll machine).executions.count byte = 1

/-- No byte arrives over one whose interrupt is outstanding, and the loop does
not call the handler once a byte has been delivered. -/
def Undisturbed (machine : Machine) : MachineEvent → Prop
  | .deliver _ => machine.served = machine.delivered
  | .irq1 => True
  | .loopStep => machine.polled = true ∨ machine.delivered = 0

/-- At most the last byte waits for its interrupt; every served one has been
translated once, every other not at all. -/
structure Balanced (machine : Machine) : Prop where
  lower : machine.served ≤ machine.delivered
  upper : machine.delivered ≤ machine.served + 1
  counts : ∀ byte, 1 ≤ byte →
    machine.executions.count byte = if byte ≤ machine.served then 1 else 0

section Steps

variable {machine : Machine}

/-- An interrupt taken hands the dispatcher the byte the port holds. -/
theorem irq1_executions (raised : machine.served < machine.delivered) :
    (machineStep machine .irq1).executions = machine.executions ++ [machine.delivered] := by
  rw [machineStep, if_pos raised]
  exact isr_executions (inbPort60 machine) machine.logged 33

theorem irq1_ignored (idle : ¬ machine.served < machine.delivered) :
    machineStep machine .irq1 = machine := by
  rw [machineStep, if_neg idle]

/-- The loop's own call of `keyboard_handler` reads the same port. -/
theorem poll_executions (poll : ¬ machine.polled = true) :
    (machineStep machine .loopStep).executions = machine.executions ++ [machine.delivered] := by
  rw [machineStep, if_neg poll]
  exact handler_executions (inbPort60 machine) machine.logged

theorem echo_executions (echo : machine.polled = true) :
    (machineStep machine .loopStep).executions = machine.executions := by
  rw [machineStep, if_pos echo]
  rfl

theorem irq1_counters (raised : machine.served < machine.delivered) :
    (machineStep machine .irq1).delivered = machine.delivered ∧
      (machineStep machine .irq1).served = machine.served + 1 := by
  rw [machineStep, if_pos raised]
  exact ⟨rfl, rfl⟩

end Steps

theorem loop_counters (machine : Machine) :
    (machineStep machine .loopStep).delivered = machine.delivered ∧
      (machineStep machine .loopStep).served = machine.served := by
  rw [machineStep]
  split_ifs
  · exact ⟨rfl, rfl⟩
  · exact ⟨rfl, rfl⟩

/-- What an event does to the kernel, by the functions without the log. -/
def kernelStep (machine : Machine) : MachineEvent → Kernel
  | .deliver _ => machine.logged.kernel
  | .irq1 =>
      if machine.served < machine.delivered then
        isrHandler 33 machine.port60 machine.logged.kernel
      else machine.logged.kernel
  | .loopStep =>
      if machine.polled then kmainEcho machine.logged.kernel
      else keyboardHandler machine.port60 machine.logged.kernel

theorem machine_step_kernel (machine : Machine) (event : MachineEvent) :
    (machineStep machine event).logged.kernel = kernelStep machine event := by
  cases event with
  | deliver byte => rfl
  | irq1 =>
      rw [machineStep, kernelStep]
      split_ifs
      · exact isr_kernel (inbPort60 machine) machine.logged 33
      · rfl
  | loopStep =>
      rw [machineStep, kernelStep]
      split_ifs
      · rfl
      · exact handler_kernel (inbPort60 machine) machine.logged

theorem count_log (executions : List Nat) (number byte : Nat) :
    (executions ++ [number]).count byte =
      executions.count byte + if number = byte then 1 else 0 := by
  rw [List.count_append, List.count_singleton]
  simp only [beq_iff_eq]

theorem balanced_step (machine : Machine) (event : MachineEvent) (balanced : Balanced machine)
    (guard : Undisturbed machine event) : Balanced (machineStep machine event) := by
  rcases balanced with ⟨lower, upper, counts⟩
  cases event with
  | deliver byte =>
      have idle : machine.served = machine.delivered := guard
      exact ⟨by simp only [machineStep]; omega, by simp only [machineStep]; omega, counts⟩
  | irq1 =>
      by_cases raised : machine.served < machine.delivered
      · have last : machine.delivered = machine.served + 1 := by omega
        obtain ⟨delivered, served⟩ := irq1_counters raised
        constructor
        · omega
        · omega
        · intro byte positive
          rw [irq1_executions raised, count_log, counts byte positive, served]
          split_ifs <;> omega
      · rw [irq1_ignored raised]
        exact ⟨lower, upper, counts⟩
  | loopStep =>
      obtain ⟨delivered, served⟩ := loop_counters machine
      constructor
      · omega
      · omega
      · intro byte positive
        rw [served]
        by_cases echo : machine.polled = true
        · rw [echo_executions echo]
          exact counts byte positive
        · -- the poll finds the byte from before the first
          have undelivered : machine.delivered = 0 := guard.resolve_left echo
          rw [poll_executions echo, count_log, counts byte positive,
            if_neg (show ¬ machine.delivered = byte by omega), Nat.add_zero]

/-- The outstanding interrupts all translate whatever byte the port holds. -/
theorem serve_executions (machine : Machine) (count : Nat)
    (raised : machine.served + count ≤ machine.delivered) :
    (run machineStep machine (List.replicate count .irq1)).executions =
      machine.executions ++ List.replicate count machine.delivered := by
  induction count generalizing machine with
  | zero => simp
  | succ count ih =>
      have next : machine.served < machine.delivered := by omega
      obtain ⟨delivered, served⟩ := irq1_counters next
      rw [List.replicate_succ, run_cons, ih _ (by omega), irq1_executions next, delivered,
        List.append_assoc, List.singleton_append, List.replicate_succ]

theorem serve_all_count (machine : Machine) (lower : machine.served ≤ machine.delivered)
    (byte : Nat) :
    (serveAll machine).executions.count byte =
      machine.executions.count byte +
        if machine.delivered = byte then machine.delivered - machine.served else 0 := by
  unfold serveAll
  rw [serve_executions machine _ (by omega), List.count_append, List.count_replicate]
  simp only [beq_iff_eq]

theorem balanced_once_each (machine : Machine) (balanced : Balanced machine) :
    OnceEach machine := by
  rcases balanced with ⟨lower, upper, counts⟩
  intro byte positive bounded
  rw [serve_all_count machine lower, counts byte positive]
  split_ifs <;> omega

theorem once_each_iff_undisturbed (machine : Machine) (event : MachineEvent)
    (balanced : Balanced machine) :
    OnceEach (machineStep machine event) ↔ Undisturbed machine event := by
  constructor
  · intro once
    rcases balanced with ⟨lower, upper, counts⟩
    cases event with
    | deliver byte =>
        -- An overwritten byte is never read: its own interrupt finds the newer one.
        by_contra outstanding
        have waiting : machine.delivered = machine.served + 1 := by
          have different : machine.served ≠ machine.delivered := outstanding
          omega
        have lost := once machine.delivered (by omega) (by simp only [machineStep]; omega)
        have counted := serve_all_count (machineStep machine (.deliver byte))
          (by simp only [machineStep]; omega) machine.delivered
        have before := counts machine.delivered (by omega)
        rw [if_neg (show ¬ machine.delivered ≤ machine.served by omega)] at before
        have newer : ¬ (machineStep machine (.deliver byte)).delivered = machine.delivered := by
          change ¬ machine.delivered + 1 = machine.delivered
          omega
        rw [if_neg newer] at counted
        have unread : (machineStep machine (.deliver byte)).executions.count machine.delivered =
            0 := before
        omega
    | irq1 => trivial
    | loopStep =>
        -- The poll translates the last byte beside its interrupt.
        by_contra polls
        have poll : ¬ machine.polled = true := fun echo => polls (Or.inl echo)
        have arrived : machine.delivered ≠ 0 := fun undelivered => polls (Or.inr undelivered)
        obtain ⟨delivered, served⟩ := loop_counters machine
        have twice := once machine.delivered (by omega) (by omega)
        rw [serve_all_count _ (by omega), poll_executions poll, count_log, counts _ (by omega),
          delivered, served] at twice
        split_ifs at twice <;> omega
  · intro guard
    exact balanced_once_each _ (balanced_step machine event balanced guard)

theorem initial_balanced (kernel : Kernel) (port60 : Byte) :
    Balanced (initialMachine kernel port60) := by
  refine ⟨Nat.le_refl 0, Nat.zero_le 1, ?_⟩
  intro byte positive
  have unserved : ¬ byte ≤ (initialMachine kernel port60).served := by
    change ¬ byte ≤ 0
    omega
  rw [if_neg unserved]
  rfl

/-- Every delivered byte is translated exactly once, at every point of a run,
exactly when the loop has stopped calling the handler before the first byte
and no byte overtakes an outstanding interrupt. -/
theorem translated_once_iff_undisturbed (kernel : Kernel) (port60 : Byte)
    (events : List MachineEvent) :
    (∀ before, before <+: events →
        OnceEach (run machineStep (initialMachine kernel port60) before)) ↔
      EachStep machineStep Undisturbed (initialMachine kernel port60) events := by
  have initial := initial_balanced kernel port60
  rw [← each_step_exact balanced_step once_each_iff_undisturbed _ initial events]
  exact (each_step_iff_reached OnceEach _ (balanced_once_each _ initial) events).symm

/-- One key, its interrupt, one loop pass: the key is translated twice. -/
theorem key_translated_twice :
    ¬ ∀ before, before <+: [MachineEvent.deliver 0x1E, .irq1, .loopStep, .loopStep] →
      OnceEach (run machineStep (initialMachine bootKernel 0) before) := by
  intro always
  have once := always _ List.prefix_rfl 1 (by decide) (by decide)
  revert once
  decide

end LumenOS.KernelLoop
