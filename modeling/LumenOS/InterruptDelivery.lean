import LumenOS.EndOfInterrupt
import LumenOS.InterruptControllers
import LumenOS.VectorDispatch

/-!
# What the remapped controllers deliver

`isr_pic_remap` moves the two controllers to vectors 32 to 47 and leaves one
line unmasked, the keyboard's. The system is the kernel, the controllers and
the processor between acceptance and return of an interrupt: devices raise and
withdraw requests at any moment, also between the writes of the driver, the
processor acknowledges only while it serves nothing, and the loop of `kmain`
goes on in between. `isr_handler` acknowledges a keyboard interrupt twice and
the loop acknowledges without an interrupt; with one line these surplus
acknowledgements meet an empty in-service register.
-/

namespace LumenOS.InterruptDelivery

open LumenOS.ByteMemory LumenOS.StepRuns LumenOS.KeyboardModel LumenOS.EndOfInterrupt
open LumenOS.InterruptControllers LumenOS.DescriptorTables LumenOS.VectorDispatch
open LumenOS.InterruptStub

set_option autoImplicit false

/-- `serving` is the vector of the interrupt being served, `delivered` every
answer the processor got, oldest first. -/
structure System where
  kernel : Kernel
  point : LoopPoint
  pics : Pair
  serving : Option Nat
  delivered : List (Option Nat)

inductive SystemEvent where
  | raise (line : Line)
  | withdraw (line : Line)
  | acknowledge
  | serve (scancode : Byte)
  | loopStep (scancode : Byte)

def writesSince (before after : Kernel) : List (Nat × Byte) :=
  after.portWrites.drop before.portWrites.length

def writeAll (pics : Pair) (writes : List (Nat × Byte)) : Pair :=
  writes.foldl (fun pics written => pics.write written.1 written.2) pics

def loopAction (system : System) (scancode : Byte) : Kernel × LoopPoint :=
  let machine := machineStep ⟨system.kernel, system.point, []⟩ (.loopStep scancode)
  (machine.kernel, machine.point)

def systemStep (system : System) : SystemEvent → System
  | .raise line => { system with pics := system.pics.setLine line true }
  | .withdraw line => { system with pics := system.pics.setLine line false }
  | .acknowledge =>
      match system.serving with
      | some _ => system
      | none =>
          let (vector, pics) := system.pics.acknowledge
          { system with
            pics := pics
            serving := vector
            delivered := system.delivered ++ [vector] }
  | .serve scancode =>
      match system.serving with
      | none => system
      | some vector =>
          let kernel := isrHandler vector scancode system.kernel
          { system with
            kernel := kernel
            pics := writeAll system.pics (writesSince system.kernel kernel)
            serving := none }
  | .loopStep scancode =>
      match system.serving with
      | some _ => system
      | none =>
          let (kernel, point) := loopAction system scancode
          { system with
            kernel := kernel
            point := point
            pics := writeAll system.pics (writesSince system.kernel kernel) }

/-- Interrupts are about to be enabled: the driver has programmed the
controllers while devices did what they liked. -/
def startSystem (kernel : Kernel) (pics : Pair) (boot : List PairEvent) : System where
  kernel := kernel
  point := .handler
  pics := run pairStep pics boot
  serving := none
  delivered := []

def keyboardVector : Nat := 33
def spuriousVector : Nat := 39

def servedLevels (serving : Option Nat) : Level → Bool :=
  fun level => serving == some keyboardVector && level.val == 1

def masterSettings (serving : Option Nat) : Settings where
  vectorBase := 0x20
  mask := 0b11111101
  cascade := 0x04
  awaiting := .nothing
  needsIcw4 := true
  single := false
  autoEoi := false
  inService := servedLevels serving

def slaveSettings : Settings where
  vectorBase := 0x28
  mask := 0xFF
  cascade := 0x02
  awaiting := .nothing
  needsIcw4 := true
  single := false
  autoEoi := false
  inService := fun _ => false

def pairSettings (serving : Option Nat) : PairSettings := ⟨masterSettings serving, slaveSettings⟩

/-- Whatever state the controllers were in. -/
theorem remap_settings (settings : PairSettings) :
    run PairSettings.write settings isrPicRemap = pairSettings none := rfl

theorem master_admits (level : Level) :
    (masterSettings none).admits level = true ↔ level = 1 := by
  revert level
  decide

theorem master_eoi (serving : Option Nat) :
    (masterSettings serving).command 0x20 = masterSettings none := by
  by_cases keyboard : serving = some keyboardVector
  · rw [keyboard]
    have cleared : (masterSettings (some keyboardVector)).command 0x20 =
        (masterSettings (some keyboardVector)).clear 1 := rfl
    rw [cleared]
    unfold Settings.clear masterSettings
    congr 1
    funext level
    revert level
    decide
  · have idle : masterSettings serving = masterSettings none := by
      unfold masterSettings
      congr 1
      funext level
      simp [servedLevels, keyboard]
    rw [idle]
    rfl

theorem pair_eoi (serving : Option Nat) :
    (pairSettings serving).write (0x20, 0x20) = pairSettings none :=
  congrArg (fun master => PairSettings.mk master slaveSettings) (master_eoi serving)

theorem write_all_settings (pics : Pair) (writes : List (Nat × Byte)) :
    (writeAll pics writes).settings = run PairSettings.write pics.settings writes := by
  induction writes generalizing pics with
  | nil => rfl
  | cons written writes ih =>
      change (writeAll (pics.write written.1 written.2) writes).settings = _
      rw [ih, write_settings, run_cons]

theorem eois_end_service (serving : Option Nat) (count : Nat)
    (served : count = 0 → serving = none) :
    run PairSettings.write (pairSettings serving) (List.replicate count (0x20, 0x20)) =
      pairSettings none := by
  induction count generalizing serving with
  | zero => rw [served rfl, List.replicate_zero, run_nil]
  | succ count ih =>
      rw [List.replicate_succ, run_cons, pair_eoi]
      exact ih none fun _ => rfl

theorem eois_settings (pics : Pair) (serving : Option Nat) (count : Nat)
    (settled : pics.settings = pairSettings serving) (served : count = 0 → serving = none) :
    (writeAll pics (List.replicate count (0x20, 0x20))).settings = pairSettings none := by
  rw [write_all_settings, settled, eois_end_service serving count served]

theorem master_take : (masterSettings none).take 1 = masterSettings (some keyboardVector) := by
  unfold Settings.take masterSettings
  congr 1
  funext level
  revert level
  decide

section Settled

variable {pics : Pair} (settled : pics.settings = pairSettings none)

include settled

theorem settled_next :
    pics.masterNext = if pics.master.requests 1 then some 1 else none := by
  have master : pics.master.settings = masterSettings none :=
    congrArg PairSettings.master settled
  have requests : pics.masterRequests 1 = pics.master.requests 1 := rfl
  unfold Pair.masterNext
  rw [master, next_of_single master_admits, requests]

/-- The processor gets the keyboard's vector if that line has a request, and
the spurious one otherwise. -/
theorem settled_acknowledge :
    pics.acknowledge =
      if pics.master.requests 1 then
        (some keyboardVector, { pics with master := pics.master.take 1 })
      else (some spuriousVector, pics) := by
  have base : pics.master.settings.vectorBase = 0x20 :=
    congrArg (fun settings => settings.master.vectorBase) settled
  unfold Pair.acknowledge
  rw [settled_next settled]
  by_cases requested : pics.master.requests 1 = true
  · rw [if_pos requested, if_pos requested]
    unfold Chip.answer
    rw [base]
    rfl
  · rw [if_neg requested, if_neg requested]
    unfold Chip.answer
    rw [base]
    rfl

theorem taken_settings :
    ({ pics with master := pics.master.take 1 } : Pair).settings =
      pairSettings (some keyboardVector) := by
  have master : pics.master.settings = masterSettings none :=
    congrArg PairSettings.master settled
  have slave : pics.slave.settings = slaveSettings := congrArg PairSettings.slave settled
  change PairSettings.mk (pics.master.settings.take 1) pics.slave.settings = _
  rw [master, slave, master_take]
  rfl

end Settled

/-- The controllers are programmed, at most the keyboard's level is in service,
and every answer so far was the keyboard's vector or the spurious one. -/
structure Steady (system : System) : Prop where
  settled : system.pics.settings = pairSettings system.serving
  serving : ∀ vector, system.serving = some vector →
    vector = keyboardVector ∨ vector = spuriousVector
  delivered : ∀ answer ∈ system.delivered,
    answer = some keyboardVector ∨ answer = some spuriousVector

theorem isr_writes (vector : Nat) (scancode : Byte) (kernel : Kernel)
    (known : vector = keyboardVector ∨ vector = spuriousVector) :
    ∃ count, 0 < count ∧
      writesSince kernel (isrHandler vector scancode kernel) =
        List.replicate count (0x20, 0x20) := by
  have written : ∀ hardware : HardwareVector,
      writesSince kernel (isrHandler hardware.val scancode kernel) =
        (isrPorts hardware.val).map eoi := by
    intro hardware
    rw [writesSince, isr_handler_writes, List.drop_left]
  cases known with
  | inl keyboard => exact ⟨2, by decide, by rw [keyboard]; exact written ⟨33, by decide⟩⟩
  | inr spurious => exact ⟨1, by decide, by rw [spurious]; exact written ⟨39, by decide⟩⟩

theorem loop_writes (system : System) (scancode : Byte) :
    ∃ count, writesSince system.kernel (loopAction system scancode).1 =
      List.replicate count (0x20, 0x20) := by
  cases here : system.point with
  | handler =>
      refine ⟨0, ?_⟩
      have same : (loopAction system scancode).1 = keyboardStore scancode system.kernel := by
        unfold loopAction
        rw [here]
        rfl
      rw [writesSince, same, store_writes, List.drop_length]
      rfl
  | acknowledge =>
      refine ⟨1, ?_⟩
      have same : (loopAction system scancode).1 =
          KeyboardModel.outb system.kernel 0x20 0x20 := by
        unfold loopAction
        rw [here]
        rfl
      rw [writesSince, same]
      exact List.drop_left
  | echo =>
      refine ⟨0, ?_⟩
      have same : (loopAction system scancode).1 = kmainEcho system.kernel := by
        unfold loopAction
        rw [here]
        rfl
      rw [writesSince, same, echo_writes, List.drop_length]
      rfl

/-- The answer joins those before it and is what is served next. -/
theorem steady_answered {system : System} {pics : Pair} {vector : Nat}
    (delivered : ∀ answer ∈ system.delivered,
      answer = some keyboardVector ∨ answer = some spuriousVector)
    (settled : pics.settings = pairSettings (some vector))
    (known : vector = keyboardVector ∨ vector = spuriousVector) :
    Steady { system with
      pics := pics
      serving := some vector
      delivered := system.delivered ++ [some vector] } := by
  constructor
  · exact settled
  · intro other same
    rw [← Option.some.inj same]
    exact known
  · intro answer member
    cases List.mem_append.mp member with
    | inl earlier => exact delivered answer earlier
    | inr last =>
        rw [List.mem_singleton.mp last]
        exact known.imp (congrArg some) (congrArg some)

theorem steady_step (system : System) (event : SystemEvent) (steady : Steady system) :
    Steady (systemStep system event) := by
  obtain ⟨settled, serving, delivered⟩ := steady
  cases event with
  | raise line => exact ⟨(set_line_settings _ _ _).trans settled, serving, delivered⟩
  | withdraw line => exact ⟨(set_line_settings _ _ _).trans settled, serving, delivered⟩
  | acknowledge =>
      unfold systemStep
      cases busy : system.serving with
      | some vector => exact ⟨settled, serving, delivered⟩
      | none =>
          rw [busy] at settled
          dsimp only
          rw [settled_acknowledge settled]
          by_cases requested : system.pics.master.requests 1 = true
          · rw [if_pos requested]
            exact steady_answered delivered (taken_settings settled) (Or.inl rfl)
          · rw [if_neg requested]
            exact steady_answered delivered settled (Or.inr rfl)
  | serve scancode =>
      unfold systemStep
      cases busy : system.serving with
      | none => exact ⟨settled, serving, delivered⟩
      | some vector =>
          obtain ⟨count, positive, writes⟩ :=
            isr_writes vector scancode system.kernel (serving vector busy)
          constructor
          · dsimp only
            rw [writes]
            exact eois_settings system.pics system.serving count settled fun zero =>
              absurd zero positive.ne'
          · intro other same
            exact absurd same (by simp)
          · exact delivered
  | loopStep scancode =>
      unfold systemStep
      cases busy : system.serving with
      | some vector => exact ⟨settled, serving, delivered⟩
      | none =>
          obtain ⟨count, writes⟩ := loop_writes system scancode
          constructor
          · dsimp only
            rw [writes]
            exact eois_settings system.pics system.serving count settled fun _ => busy
          · intro other same
            exact absurd same (by simp)
          · exact delivered

/-- What the running system relies on: only the keyboard's and the spurious
vector ever arrive, each has its stub behind it, nothing is left in service
between two interrupts, and the keyboard's request is answered at the next
acknowledgement. -/
structure KeyboardOnly (statics : Statics) (processor : Processor) (memory : Memory)
    (system : System) : Prop where
  answers : ∀ answer ∈ system.delivered,
    answer = some keyboardVector ∨ answer = some spuriousVector
  stubs : ∀ vector, some vector ∈ system.delivered →
    vectorTarget memory processor.gdtr processor.idtr vector =
      some ⟨statics.isr vector, 0, true⟩
  idle : system.serving = none → ∀ level,
    system.pics.master.settings.inService level = false ∧
      system.pics.slave.settings.inService level = false
  next : system.serving = none → (systemStep system .acknowledge).serving =
    if system.pics.master.requests 1 then some keyboardVector else some spuriousVector

theorem steady_start (kernel : Kernel) (pics : Pair) (boot : List PairEvent)
    (driver : boot.filterMap PairEvent.written = isrPicRemap) :
    Steady (startSystem kernel pics boot) := by
  constructor
  · change (run pairStep pics boot).settings = pairSettings none
    rw [run_settings, driver, remap_settings]
  · intro vector same
    exact absurd same (by simp [startSystem])
  · intro answer member
    exact absurd member List.not_mem_nil

theorem steady_keyboard_only {statics : Statics} {processor : Processor} {later : Memory}
    (kept : TablesKept statics (installTables statics processor).memory later) (system : System)
    (steady : Steady system) :
    KeyboardOnly statics (installTables statics processor) later system := by
  obtain ⟨settled, serving, delivered⟩ := steady
  constructor
  · exact delivered
  · intro vector member
    cases delivered _ member with
    | inl keyboard =>
        rw [Option.some.inj keyboard]
        exact installed_target kept keyboardVector (by decide)
    | inr spurious =>
        rw [Option.some.inj spurious]
        exact installed_target kept spuriousVector (by decide)
  · intro idle level
    rw [idle] at settled
    constructor
    · exact congrArg (fun settings => settings.master.inService level) settled
    · exact congrArg (fun settings => settings.slave.inService level) settled
  · intro idle
    rw [idle] at settled
    unfold systemStep
    rw [idle]
    dsimp only
    rw [settled_acknowledge settled]
    split_ifs <;> rfl

def idleChip : Chip where
  settings := slaveSettings
  requests := fun _ => false

def remapEvents : List PairEvent :=
  .raise 0 :: isrPicRemap.map fun written => .write written.1 written.2

end LumenOS.InterruptDelivery
