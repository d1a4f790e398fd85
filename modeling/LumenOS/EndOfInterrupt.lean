import LumenOS.KeyboardModel
import LumenOS.StepRuns

/-!
# End-of-interrupt accounting

What the interrupt controllers see of a run: the vectors they deliver, the
bytes written to their command ports and the returns from the dispatcher, in
order. Gates are interrupt gates, so one interrupt is served at a time, while
the polling loop may be interrupted between any two of its actions.
-/

namespace LumenOS.EndOfInterrupt

open LumenOS.ByteMemory LumenOS.KeyboardModel LumenOS.StepRuns

set_option autoImplicit false

/-- The vectors both remapped controllers can raise. -/
abbrev HardwareVector := { vector : Nat // 32 ≤ vector ∧ vector ≤ 47 }

inductive Observation where
  | delivered (vector : Nat)
  | write (port : Nat) (value : Byte)
  | returned
  deriving DecidableEq

/-- The actions of one loop pass: the handler up to its last statement, that
statement, and the rest of the pass. -/
inductive LoopPoint where
  | handler
  | acknowledge
  | echo
  deriving DecidableEq

structure Machine where
  kernel : Kernel
  point : LoopPoint
  trace : List Observation

inductive MachineEvent where
  | interrupt (vector : HardwareVector) (scancode : Byte)
  | loopStep (scancode : Byte)

/-- `keyboard_handler` before its `outb`. -/
def keyboardStore (scancode : Byte) (kernel : Kernel) : Kernel :=
  let (c, keys) := keyboardGetChar scancode kernel.keys
  let kernel := { kernel with keys := keys }
  if c ≠ 0 then
    let next := u8 ((kernel.ring.kbdHead + 1) % kbdBufferSize)
    if next ≠ kernel.ring.kbdTail then
      { kernel with ring := { kernel.ring with kbdHead := next } }
    else kernel
  else kernel

theorem keyboard_handler_acknowledges (scancode : Byte) (kernel : Kernel) :
    keyboardHandler scancode kernel = outb (keyboardStore scancode kernel) 0x20 0x20 := rfl

/-- The port writes of an action that took the kernel from one state to another. -/
def newWrites (before after : Kernel) : List Observation :=
  (after.portWrites.drop before.portWrites.length).map fun written =>
    .write written.1 written.2

def machineStep (machine : Machine) : MachineEvent → Machine
  | .interrupt vector scancode =>
      let kernel := isrHandler vector.val scancode machine.kernel
      { machine with
        kernel := kernel
        trace := machine.trace ++
          (.delivered vector.val :: newWrites machine.kernel kernel ++ [.returned]) }
  | .loopStep scancode =>
      let (kernel, point) := match machine.point with
        | .handler => (keyboardStore scancode machine.kernel, LoopPoint.acknowledge)
        | .acknowledge => (outb machine.kernel 0x20 0x20, LoopPoint.echo)
        | .echo => (kmainEcho machine.kernel, LoopPoint.handler)
      { kernel := kernel
        point := point
        trace := machine.trace ++ newWrites machine.kernel kernel }

def initialMachine (kernel : Kernel) : Machine where
  kernel := kernel
  point := .handler
  trace := []

def Observation.IsRaised (lowest : Nat) : Observation → Bool
  | .delivered vector => decide (lowest ≤ vector)
  | _ => false

/-- Interrupts delivered so far, counting vectors from `lowest` on. -/
def raised (lowest : Nat) (trace : List Observation) : Nat :=
  trace.countP (Observation.IsRaised lowest)

def eois (port : Nat) (trace : List Observation) : Nat :=
  trace.count (.write port 0x20)

def servingAfter (serving : Bool) : Observation → Bool
  | .delivered _ => true
  | .write _ _ => serving
  | .returned => false

def serving (trace : List Observation) : Bool := trace.foldl servingAfter false

/-- No more acknowledgements than interrupts, and as many outside the dispatcher. -/
def Accounted (port lowest : Nat) (trace : List Observation) : Prop :=
  eois port trace ≤ raised lowest trace ∧
    (serving trace = false → eois port trace = raised lowest trace)

/-- The master controller sees every hardware interrupt, the slave those from 40 on. -/
def Fair (trace : List Observation) : Prop :=
  Accounted 0x20 32 trace ∧ Accounted 0xA0 40 trace

/-- The interrupt is not the keyboard's, and the loop is not at the
acknowledgement of its own call of the keyboard handler. -/
def Quiet (machine : Machine) : MachineEvent → Prop
  | .interrupt vector _ => vector.val ≠ 33
  | .loopStep _ => machine.point ≠ .acknowledge

theorem store_writes (scancode : Byte) (kernel : Kernel) :
    (keyboardStore scancode kernel).portWrites = kernel.portWrites := by
  unfold keyboardStore
  dsimp only
  split_ifs <;> rfl

theorem echo_writes (kernel : Kernel) : (kmainEcho kernel).portWrites = kernel.portWrites := by
  unfold kmainEcho keyboardGetc
  dsimp only
  split_ifs <;> rfl

/-- The command ports `isr_handler` acknowledges at for a vector, in order. -/
def isrPorts (vector : Nat) : List Nat :=
  (if vector = 33 then [0x20] else []) ++ ((if 40 ≤ vector then [0xA0] else []) ++ [0x20])

def eoi (port : Nat) : Nat × Byte := (port, 0x20)

theorem isr_handler_writes (vector : HardwareVector) (scancode : Byte) (kernel : Kernel) :
    (isrHandler vector.val scancode kernel).portWrites =
      kernel.portWrites ++ (isrPorts vector.val).map eoi := by
  obtain ⟨vector, lower, upper⟩ := vector
  have hardware : vector ≠ 128 := by omega
  unfold isrHandler isrPorts
  simp only [if_neg hardware, if_pos (show 32 ≤ vector ∧ vector ≤ 47 from ⟨lower, upper⟩)]
  by_cases keyboard : vector = 33
  · have master : ¬ 40 ≤ vector := by omega
    simp only [if_pos keyboard, if_neg master, keyboard_handler_acknowledges]
    simp [outb, store_writes, eoi]
  · by_cases slave : 40 ≤ vector
    · simp [keyboard, slave, outb, eoi]
    · simp [keyboard, slave, outb, eoi]

theorem new_writes_append (before after : Kernel) (ports : List Nat)
    (extended : after.portWrites = before.portWrites ++ ports.map eoi) :
    newWrites before after = ports.map (.write · 0x20) := by
  rw [newWrites, extended, List.drop_left, List.map_map]
  rfl

theorem new_writes_none (before after : Kernel) (same : after.portWrites = before.portWrites) :
    newWrites before after = [] := by
  rw [newWrites, same, List.drop_length, List.map_nil]

def observed (machine : Machine) : MachineEvent → List Observation
  | .interrupt vector _ =>
      .delivered vector.val :: (isrPorts vector.val).map (.write · 0x20) ++ [.returned]
  | .loopStep _ => if machine.point = .acknowledge then [.write 0x20 0x20] else []

theorem step_trace (machine : Machine) (event : MachineEvent) :
    (machineStep machine event).trace = machine.trace ++ observed machine event := by
  cases event with
  | interrupt vector scancode =>
      have written := isr_handler_writes vector scancode machine.kernel
      simp only [machineStep, observed, new_writes_append _ _ _ written]
  | loopStep scancode =>
      rcases machine with ⟨kernel, point, trace⟩
      cases point with
      | handler =>
          simp only [machineStep, observed, new_writes_none _ _ (store_writes scancode kernel)]
          rfl
      | acknowledge =>
          have written : (outb kernel 0x20 0x20).portWrites =
              kernel.portWrites ++ [0x20].map eoi := rfl
          simp only [machineStep, observed, new_writes_append _ _ _ written]
          rfl
      | echo =>
          simp only [machineStep, observed, new_writes_none _ _ (echo_writes kernel)]
          rfl

theorem trace_grows (machine : Machine) (events : List MachineEvent) :
    machine.trace <+: (run machineStep machine events).trace := by
  induction events generalizing machine with
  | nil => exact List.prefix_rfl
  | cons event events ih =>
      refine List.IsPrefix.trans ?_ (ih (machineStep machine event))
      rw [step_trace]
      exact List.prefix_append _ _

section Counting

variable (port lowest : Nat) (trace : List Observation)

@[simp] theorem eois_delivered (vector : Nat) :
    eois port (trace ++ [.delivered vector]) = eois port trace := by
  simp [eois]

@[simp] theorem eois_returned : eois port (trace ++ [.returned]) = eois port trace := by
  simp [eois]

@[simp] theorem eois_write (target : Nat) :
    eois port (trace ++ [.write target 0x20]) =
      eois port trace + if target = port then 1 else 0 := by
  rw [eois, List.count_append, List.count_singleton]
  simp [eois]

@[simp] theorem raised_delivered (vector : Nat) :
    raised lowest (trace ++ [.delivered vector]) =
      raised lowest trace + if lowest ≤ vector then 1 else 0 := by
  rw [raised, List.countP_append, List.countP_singleton]
  simp [raised, Observation.IsRaised]

@[simp] theorem raised_returned : raised lowest (trace ++ [.returned]) = raised lowest trace := by
  simp [raised, Observation.IsRaised]

@[simp] theorem raised_write (target : Nat) (value : Byte) :
    raised lowest (trace ++ [.write target value]) = raised lowest trace := by
  simp [raised, Observation.IsRaised]

@[simp] theorem serving_delivered (vector : Nat) :
    serving (trace ++ [.delivered vector]) = true := by
  simp [serving, servingAfter]

@[simp] theorem serving_returned : serving (trace ++ [.returned]) = false := by
  simp [serving, servingAfter]

@[simp] theorem serving_write (target : Nat) (value : Byte) :
    serving (trace ++ [.write target value]) = serving trace := by
  simp [serving, servingAfter]

end Counting

/-- Accounted for so far, with the dispatcher idle: what holds between events. -/
structure Settled (port lowest : Nat) (trace : List Observation) : Prop where
  always : AtEveryPoint (Accounted port lowest) trace
  idle : serving trace = false

theorem settled_balance {port lowest : Nat} {trace : List Observation}
    (settled : Settled port lowest trace) : eois port trace = raised lowest trace :=
  (settled.always trace List.prefix_rfl).2 settled.idle

theorem initial_settled (port lowest : Nat) : Settled port lowest [] :=
  ⟨at_every_point_nil _ ⟨Nat.le_refl 0, fun _ => rfl⟩, rfl⟩

/-- The dispatcher is idle again after every event. -/
theorem observed_idle (machine : Machine) (event : MachineEvent)
    (idle : serving machine.trace = false) :
    serving (machine.trace ++ observed machine event) = false := by
  cases event with
  | interrupt vector scancode =>
      simp only [observed]
      rw [← List.append_assoc]
      exact serving_returned _
  | loopStep scancode =>
      simp only [observed]
      split_ifs
      · rw [serving_write]
        exact idle
      · rw [List.append_nil]
        exact idle

theorem accounted_serving {port lowest : Nat} {trace : List Observation}
    (busy : serving trace = true) :
    Accounted port lowest trace ↔ eois port trace ≤ raised lowest trace := by
  unfold Accounted
  rw [busy]
  simp

theorem accounted_idle {port lowest : Nat} {trace : List Observation}
    (idle : serving trace = false) :
    Accounted port lowest trace ↔ eois port trace = raised lowest trace := by
  constructor
  · intro accounted
    exact accounted.2 idle
  · intro equal
    exact ⟨Nat.le_of_eq equal, fun _ => equal⟩

/-- From within the dispatcher, every later point is accounted for exactly
when the remaining acknowledgements make up the balance. -/
theorem serving_points {port lowest : Nat} (trace : List Observation) (ports : List Nat)
    (busy : serving trace = true) :
    AtEveryPoint (Accounted port lowest)
        (trace ++ (ports.map (.write · 0x20) ++ [.returned])) ↔
      AtEveryPoint (Accounted port lowest) trace ∧
        eois port trace + ports.count port = raised lowest trace := by
  induction ports generalizing trace with
  | nil =>
      rw [List.map_nil, List.nil_append, at_every_point_concat,
        accounted_idle (serving_returned trace), eois_returned, raised_returned,
        List.count_nil, Nat.add_zero]
  | cons target ports ih =>
      have still : serving (trace ++ [.write target 0x20]) = true := by
        rw [serving_write, busy]
      rw [List.map_cons, List.cons_append, List.append_cons, ih _ still, at_every_point_concat,
        accounted_serving still, eois_write, raised_write, List.count_cons]
      simp only [beq_iff_eq]
      constructor
      · rintro ⟨⟨always, _⟩, balance⟩
        exact ⟨always, by omega⟩
      · rintro ⟨always, balance⟩
        exact ⟨⟨always, by omega⟩, by omega⟩

/-- An interrupt is accounted for exactly when its own port is acknowledged
once, or not at all where the controller is not concerned. -/
theorem interrupt_points {port lowest : Nat} (machine : Machine) (vector : HardwareVector)
    (scancode : Byte) (settled : Settled port lowest machine.trace) :
    AtEveryPoint (Accounted port lowest)
        (machineStep machine (.interrupt vector scancode)).trace ↔
      (isrPorts vector.val).count port = if lowest ≤ vector.val then 1 else 0 := by
  have balance := settled_balance settled
  have busy := serving_delivered machine.trace vector.val
  rw [step_trace]
  simp only [observed]
  rw [List.cons_append, List.append_cons, serving_points _ _ busy, at_every_point_concat,
    accounted_serving busy, eois_delivered, raised_delivered]
  constructor
  · rintro ⟨_, equal⟩
    omega
  · intro equal
    exact ⟨⟨settled.always, by omega⟩, by omega⟩

theorem loop_points {port lowest : Nat} (machine : Machine) (scancode : Byte)
    (settled : Settled port lowest machine.trace) :
    AtEveryPoint (Accounted port lowest) (machineStep machine (.loopStep scancode)).trace ↔
      (machine.point = .acknowledge → port ≠ 0x20) := by
  have balance := settled_balance settled
  rw [step_trace]
  simp only [observed]
  by_cases acknowledge : machine.point = .acknowledge
  · have idle : serving (machine.trace ++ [.write 0x20 0x20]) = false := by
      rw [serving_write, settled.idle]
    rw [if_pos acknowledge, at_every_point_concat, accounted_idle idle, eois_write, raised_write]
    by_cases master : port = 0x20
    · subst master
      simp [acknowledge, balance]
    · simp [acknowledge, master, Ne.symm master, settled.always, balance]
  · rw [if_neg acknowledge, List.append_nil]
    exact iff_of_true settled.always fun reached => absurd reached acknowledge

theorem slave_acknowledged_once (vector : Nat) :
    (isrPorts vector).count 0xA0 = if 40 ≤ vector then 1 else 0 := by
  unfold isrPorts
  split_ifs <;> rfl

theorem master_acknowledged_once_iff (vector : HardwareVector) :
    (isrPorts vector.val).count 0x20 = (if 32 ≤ vector.val then 1 else 0) ↔
      vector.val ≠ 33 := by
  rw [if_pos vector.property.1]
  unfold isrPorts
  split_ifs with keyboard slave slave <;> simp [keyboard]

theorem slave_step (machine : Machine) (event : MachineEvent)
    (settled : Settled 0xA0 40 machine.trace) :
    Settled 0xA0 40 (machineStep machine event).trace := by
  have idle : serving (machineStep machine event).trace = false := by
    rw [step_trace]
    exact observed_idle machine event settled.idle
  refine ⟨?_, idle⟩
  cases event with
  | interrupt vector scancode =>
      rw [interrupt_points machine vector scancode settled]
      exact slave_acknowledged_once vector.val
  | loopStep scancode =>
      rw [loop_points machine scancode settled]
      intro _
      decide

/-- An event is accounted for on the master side exactly when it is quiet. -/
theorem master_step (machine : Machine) (event : MachineEvent)
    (settled : Settled 0x20 32 machine.trace) :
    AtEveryPoint (Accounted 0x20 32) (machineStep machine event).trace ↔
      Quiet machine event := by
  cases event with
  | interrupt vector scancode =>
      rw [interrupt_points machine vector scancode settled]
      exact master_acknowledged_once_iff vector
  | loopStep scancode =>
      rw [loop_points machine scancode settled]
      simp [Quiet]

theorem master_settled_step (machine : Machine) (event : MachineEvent)
    (settled : Settled 0x20 32 machine.trace) (quiet : Quiet machine event) :
    Settled 0x20 32 (machineStep machine event).trace := by
  refine ⟨(master_step machine event settled).mpr quiet, ?_⟩
  rw [step_trace]
  exact observed_idle machine event settled.idle

/-- The slave controller is acknowledged once for each interrupt of its own,
in every run. -/
theorem slave_always_accounted (kernel : Kernel) (events : List MachineEvent) :
    AtEveryPoint (Accounted 0xA0 40) (run machineStep (initialMachine kernel) events).trace :=
  (run_invariant_always (fun machine => Settled 0xA0 40 machine.trace) slave_step
    (initialMachine kernel) (initial_settled 0xA0 40) events).always

/-- The trace only grows, so its points are those of every state reached. -/
theorem at_every_point_iff_each_step (good : List Observation → Prop) (initial : good [])
    (kernel : Kernel) (events : List MachineEvent) :
    AtEveryPoint good (run machineStep (initialMachine kernel) events).trace ↔
      EachStep machineStep
        (fun machine event => AtEveryPoint good (machineStep machine event).trace)
        (initialMachine kernel) events := by
  rw [each_step_iff_reached (fun machine => AtEveryPoint good machine.trace)
    (initialMachine kernel) (at_every_point_nil good initial) events]
  constructor
  · intro always before leading
    obtain ⟨after, rfl⟩ := leading
    rw [run_append] at always
    exact at_every_point_shorter (trace_grows _ after) always
  · intro reached
    exact reached events List.prefix_rfl

/-- Both controllers see as many acknowledgements as interrupts, and never
more, exactly in the runs without the keyboard's interrupt and without a
completed call of its handler from the loop. -/
theorem eoi_accounted_iff_quiet (kernel : Kernel) (events : List MachineEvent) :
    AtEveryPoint Fair (run machineStep (initialMachine kernel) events).trace ↔
      EachStep machineStep Quiet (initialMachine kernel) events := by
  have master : AtEveryPoint (Accounted 0x20 32)
      (run machineStep (initialMachine kernel) events).trace ↔
      EachStep machineStep Quiet (initialMachine kernel) events := by
    rw [at_every_point_iff_each_step _ ⟨Nat.le_refl 0, fun _ => rfl⟩]
    exact each_step_exact master_settled_step master_step _ (initial_settled 0x20 32) events
  rw [← master]
  constructor
  · intro fair point leading
    exact (fair point leading).1
  · intro accounted point leading
    exact ⟨accounted point leading, slave_always_accounted kernel events point leading⟩

/-- One key interrupt: the second acknowledgement has no interrupt of its own. -/
theorem keyboard_acknowledged_twice :
    ¬ AtEveryPoint Fair (run machineStep (initialMachine bootKernel)
      [.interrupt ⟨33, by decide⟩ 0x1E]).trace := by
  intro always
  have balance := (always _ List.prefix_rfl).1.2 (by decide)
  revert balance
  decide

end LumenOS.EndOfInterrupt
