import LumenOS.InterruptStub
import LumenOS.StepRuns

/-!
# Before and after `kmain`

`boot.s` pushes the two words the boot loader left in registers, calls `kmain`
and stays in `hlt` and `jmp .` when it comes back. Nothing there touches a
register, so the interrupts served meanwhile meet what the ones before them
have left: each moves the saved words on by two, and after four of them the
registers hold vectors and error codes only.
-/

namespace LumenOS.IdleLoop

open LumenOS.ByteMemory LumenOS.DescendingStack LumenOS.InterruptStub LumenOS.StepRuns

set_option autoImplicit false

def startPushes (stackTop : BitVec 32) (cpu : Cpu) : Cpu :=
  let cpu := { cpu with esp := stackTop, eflags := cpu.eflags &&& ~~~interruptFlag }
  push cpu.eax (push cpu.ebx cpu)

/-- `kmain` is entered with the address of `hlt` to return to. -/
def kmainEntry (stackTop hlt : BitVec 32) (cpu : Cpu) : Cpu := push hlt (startPushes stackTop cpu)

def start (kmain : Cpu → Cpu) (stackTop hlt : BitVec 32) (cpu : Cpu) : Cpu :=
  let returned := kmain (kmainEntry stackTop hlt cpu)
  { returned with eip := wordAt returned.memory returned.esp, esp := returned.esp + 4 }

/-- One call of `kmain` comes back to where it was called from, with interrupts
enabled. -/
structure ReturnsEnabled (kmain : Cpu → Cpu) (entry : Cpu) : Prop where
  esp : (kmain entry).esp = entry.esp
  slot : wordAt (kmain entry).memory entry.esp = wordAt entry.memory entry.esp
  enabled : (kmain entry).eflags &&& interruptFlag ≠ 0

structure Request where
  environment : Environment
  vector : Nat
  errorCode : BitVec 32

inductive IdleEvent where
  | instruction
  | interrupt (request : Request)

/-- `hlt` goes on to the jump behind it, which goes nowhere; a request is served
when interrupts are enabled. -/
def idleStep (hlt : BitVec 32) (cpu : Cpu) : IdleEvent → Cpu
  | .instruction => if cpu.eip = hlt then { cpu with eip := hlt + 1 } else cpu
  | .interrupt request =>
      if cpu.eflags &&& interruptFlag = 0 then cpu
      else
        match stub request.vector with
        | none => cpu
        | some program =>
            stubResult request.environment request.vector request.errorCode program cpu

structure Registers where
  edi : BitVec 32
  esi : BitVec 32
  ebp : BitVec 32
  ebx : BitVec 32
  edx : BitVec 32
  ecx : BitVec 32
  eax : BitVec 32
  deriving DecidableEq

def registers (cpu : Cpu) : Registers where
  edi := cpu.edi
  esi := cpu.esi
  ebp := cpu.ebp
  ebx := cpu.ebx
  edx := cpu.edx
  ecx := cpu.ecx
  eax := cpu.eax

def Request.number (request : Request) : BitVec 32 := BitVec.ofNat 32 request.vector

def Request.code (request : Request) : BitVec 32 := frameErrorCode request.vector request.errorCode

/-- What one interrupt makes of the registers at a stack pointer. -/
def shifted (esp : BitVec 32) (before : Registers) (request : Request) : Registers where
  edi := before.ebp
  esi := esp - 20
  ebp := before.ebx
  ebx := before.ecx
  edx := before.eax
  ecx := request.number
  eax := request.code

/-- After four interrupts nothing is left but the last two error codes and the
last four vectors. -/
theorem shifted_four (esp : BitVec 32) (before : Registers) (requests : List Request)
    (a b c d : Request) :
    run (shifted esp) before (requests ++ [a, b, c, d]) =
      ⟨a.number, esp - 20, b.number, c.number, c.code, d.number, d.code⟩ := by
  rw [run_append]
  rfl

def requested : IdleEvent → Option Request
  | .instruction => none
  | .interrupt request => some request

/-- The vector has a stub, and the call of the handler that this interrupt makes
keeps to the calling convention. -/
def Allowed (cpu : Cpu) (event : IdleEvent) : Prop :=
  ∀ request ∈ requested event, ∃ program, stub request.vector = some program ∧
    FollowsCdecl request.environment.isrHandler
      (handlerEntry request.environment request.vector request.errorCode program cpu)

structure StaysIdle (idle : Cpu) (hlt : BitVec 32) (requests : List Request) (cpu : Cpu) :
    Prop where
  place : cpu.eip = hlt ∨ cpu.eip = hlt + 1
  stack : cpu.esp = idle.esp
  segment : cpu.cs = idle.cs
  flags : cpu.eflags = idle.eflags
  registers : registers cpu = run (shifted idle.esp) (registers idle) requests

section Steps

variable {idle cpu : Cpu} {hlt : BitVec 32} {requests : List Request}

theorem idle_step (enabled : idle.eflags &&& interruptFlag ≠ 0)
    (stays : StaysIdle idle hlt requests cpu) (event : IdleEvent) (allowed : Allowed cpu event) :
    StaysIdle idle hlt (requests ++ (requested event).toList) (idleStep hlt cpu event) := by
  cases event with
  | instruction =>
      change StaysIdle idle hlt (requests ++ []) _
      rw [List.append_nil]
      unfold idleStep
      dsimp only
      split_ifs
      · exact ⟨Or.inr rfl, stays.stack, stays.segment, stays.flags, stays.registers⟩
      · exact stays
  | interrupt request =>
      obtain ⟨program, found, convention⟩ := allowed request rfl
      obtain ⟨⟨eip, cs, eflags, esp⟩, edi, esi, ebp, ebx, edx, ecx, eax⟩ :=
        stub_result_words request.environment request.errorCode cpu found convention
      have served : idleStep hlt cpu (.interrupt request) =
          stubResult request.environment request.vector request.errorCode program cpu := by
        unfold idleStep
        dsimp only
        rw [stays.flags, if_neg enabled, found]
      rw [served]
      constructor
      · rw [eip]
        exact stays.place
      · exact esp.trans stays.stack
      · exact cs.trans stays.segment
      · exact eflags.trans stays.flags
      · have moved : registers (stubResult request.environment request.vector
            request.errorCode program cpu) = shifted idle.esp (registers cpu) request := by
          unfold registers shifted Request.number Request.code
          rw [edi, esi, ebp, ebx, edx, ecx, eax, stays.stack]
        rw [moved, stays.registers]
        change _ = run _ _ (requests ++ [request])
        rw [run_append]
        rfl

theorem idle_run (enabled : idle.eflags &&& interruptFlag ≠ 0)
    (stays : StaysIdle idle hlt requests cpu) (events : List IdleEvent)
    (allowed : EachStep (idleStep hlt) Allowed cpu events) :
    StaysIdle idle hlt (requests ++ events.filterMap requested)
      (run (idleStep hlt) cpu events) := by
  induction events generalizing cpu requests with
  | nil =>
      rw [List.filterMap_nil, List.append_nil]
      exact stays
  | cons event events ih =>
      obtain ⟨now, after⟩ := (each_step_cons _ _ _ _ _).mp allowed
      have next := idle_step enabled stays event now
      have later := ih next after
      have listed : (event :: events).filterMap requested =
          (requested event).toList ++ events.filterMap requested := by
        cases event <;> rfl
      rw [listed, ← List.append_assoc]
      exact later

end Steps

section Entry

variable (stackTop hlt : BitVec 32) (cpu : Cpu)

theorem entry_pushed : kmainEntry stackTop hlt cpu = pushAllWords [cpu.ebx, cpu.eax, hlt]
    { cpu with esp := stackTop, eflags := cpu.eflags &&& ~~~interruptFlag } := by
  unfold kmainEntry startPushes push
  rw [push_words_append, push_words_append]
  rfl

theorem entry_word (index : Nat) (bound : index < 3) :
    wordAt (kmainEntry stackTop hlt cpu).memory (stackTop - BitVec.ofNat 32 (4 * (index + 1))) =
      [cpu.ebx, cpu.eax, hlt][index] := by
  rw [entry_pushed]
  exact word_at_pushed cpu.memory stackTop [cpu.ebx, cpu.eax, hlt] index bound
    (Nat.le_of_ble_eq_true rfl)

theorem entry_depth : (kmainEntry stackTop hlt cpu).esp = stackTop - 12 := by
  rw [entry_pushed]
  rfl

theorem start_idles (kmain : Cpu → Cpu)
    (returns : ReturnsEnabled kmain (kmainEntry stackTop hlt cpu)) :
    StaysIdle (start kmain stackTop hlt cpu) hlt [] (start kmain stackTop hlt cpu) := by
  have place : (start kmain stackTop hlt cpu).eip = hlt := by
    change wordAt (kmain (kmainEntry stackTop hlt cpu)).memory
      (kmain (kmainEntry stackTop hlt cpu)).esp = hlt
    rw [returns.esp, returns.slot, entry_depth]
    exact entry_word stackTop hlt cpu 2 (by decide)
  exact ⟨Or.inl place, rfl, rfl, rfl, rfl⟩

end Entry

/-- The arguments of `kmain` are the loader's words, and whatever is served in
the idle loop, the processor stays in it at the same stack pointer with
interrupts enabled, the registers those of the shifts so far. -/
structure IdlesOnBoot (kmain : Cpu → Cpu) (stackTop hlt : BitVec 32) (cpu : Cpu)
    (requests : List Request) (final : Cpu) : Prop where
  multibootMagic : wordAt (kmainEntry stackTop hlt cpu).memory
    ((kmainEntry stackTop hlt cpu).esp + 4) = cpu.eax
  mbInfo : wordAt (kmainEntry stackTop hlt cpu).memory
    ((kmainEntry stackTop hlt cpu).esp + 8) = cpu.ebx
  stack : (start kmain stackTop hlt cpu).esp = stackTop - 8
  stays : StaysIdle (start kmain stackTop hlt cpu) hlt requests final
  enabled : final.eflags &&& interruptFlag ≠ 0
  drained : ∀ earlier a b c d, requests = earlier ++ [a, b, c, d] →
    registers final =
      ⟨a.number, stackTop - 28, b.number, c.number, c.code, d.number, d.code⟩

/-- For every run of the loop's instructions and of interrupts. -/
theorem boot_idles (kmain : Cpu → Cpu) (stackTop hlt : BitVec 32) (cpu : Cpu)
    (returns : ReturnsEnabled kmain (kmainEntry stackTop hlt cpu)) (events : List IdleEvent)
    (allowed : EachStep (idleStep hlt) Allowed (start kmain stackTop hlt cpu) events) :
    IdlesOnBoot kmain stackTop hlt cpu (events.filterMap requested)
      (run (idleStep hlt) (start kmain stackTop hlt cpu) events) := by
  have depth := entry_depth stackTop hlt cpu
  have stack : (start kmain stackTop hlt cpu).esp = stackTop - 8 := by
    change (kmain (kmainEntry stackTop hlt cpu)).esp + 4 = stackTop - 8
    rw [returns.esp, depth]
    bv_omega
  have enabled : (start kmain stackTop hlt cpu).eflags &&& interruptFlag ≠ 0 :=
    returns.enabled
  have stays := idle_run enabled (start_idles stackTop hlt cpu kmain returns) events allowed
  rw [List.nil_append] at stays
  constructor
  · rw [depth, show stackTop - 12 + 4 = stackTop - BitVec.ofNat 32 (4 * (1 + 1)) by bv_omega]
    exact entry_word stackTop hlt cpu 1 (by decide)
  · rw [depth, show stackTop - 12 + 8 = stackTop - BitVec.ofNat 32 (4 * (0 + 1)) by bv_omega]
    exact entry_word stackTop hlt cpu 0 (by decide)
  · exact stack
  · exact stays
  · rw [stays.flags]
    exact enabled
  · intro earlier a b c d last
    rw [stays.registers, last, shifted_four, stack,
      show stackTop - 8 - 20 = stackTop - 28 by bv_omega]

def returningKmain (cpu : Cpu) : Cpu :=
  { cpu with
    eflags := cpu.eflags ||| interruptFlag
    memory := store16 cpu.memory 0xB8000 0x0F20 }

theorem returning_kmain_returns (entry : Cpu) (above : 0xB8002 ≤ entry.esp.toNat)
    (below : entry.esp.toNat + 4 ≤ 2 ^ 32) : ReturnsEnabled returningKmain entry where
  esp := rfl
  slot := by
    apply word_at_congr
    intro i bound
    apply store16_apart
    · omega
    · omega
    · exact Or.inr (by omega)
  enabled := by
    have absorbed : (entry.eflags ||| interruptFlag) &&& interruptFlag = interruptFlag := by
      apply BitVec.eq_of_getLsbD_eq
      intro i bound
      simp only [BitVec.getLsbD_and, BitVec.getLsbD_or]
      cases interruptFlag.getLsbD i <;> simp
    change (entry.eflags ||| interruptFlag) &&& interruptFlag ≠ 0
    rw [absorbed]
    decide

def sampleEvents : List IdleEvent :=
  .instruction :: ([33, 39, 33, 33, 39].map fun vector =>
    .interrupt ⟨sampleEnvironment, vector, 0⟩)

/-- The loop keeps its stack pointer, so every call of the handler finds its
frame above what it stores to. -/
theorem sample_requests_allowed {idle cpu : Cpu} {hlt : BitVec 32} {requests : List Request}
    (enabled : idle.eflags &&& interruptFlag ≠ 0) (above : 0x204100 ≤ idle.esp.toNat)
    (stays : StaysIdle idle hlt requests cpu) (vectors : List Nat)
    (stubbed : ∀ vector ∈ vectors, (stub vector).isSome) :
    EachStep (idleStep hlt) Allowed cpu
      (vectors.map fun vector => .interrupt ⟨sampleEnvironment, vector, 0⟩) := by
  induction vectors generalizing cpu requests with
  | nil => exact each_step_nil _ _ _
  | cons vector vectors ih =>
      obtain ⟨program, found⟩ := Option.isSome_iff_exists.mp (stubbed vector List.mem_cons_self)
      have allowed : Allowed cpu (.interrupt ⟨sampleEnvironment, vector, 0⟩) := by
        intro request asked
        cases asked
        refine ⟨program, found, sample_convention 0 cpu found ?_⟩
        rw [stays.stack]
        exact above
      apply (each_step_cons _ _ _ _ _).mpr
      refine ⟨allowed, ih (idle_step enabled stays _ allowed) ?_⟩
      intro other member
      exact stubbed other (List.mem_cons_of_mem vector member)

def sampleLoader : Cpu := interruptedCpu 0x2BADB002 0x10000 1 2 3 4 5

theorem sample_returns :
    ReturnsEnabled returningKmain (kmainEntry 0x20C000 0x200010 sampleLoader) :=
  returning_kmain_returns _ (Nat.le_of_ble_eq_true rfl) (Nat.le_of_ble_eq_true rfl)

theorem sample_events_allowed : EachStep (idleStep 0x200010) Allowed
    (start returningKmain 0x20C000 0x200010 sampleLoader) sampleEvents := by
  have begins := start_idles 0x20C000 0x200010 sampleLoader returningKmain sample_returns
  have waiting : Allowed (start returningKmain 0x20C000 0x200010 sampleLoader) .instruction := by
    intro request impossible
    cases impossible
  have enabled : (start returningKmain 0x20C000 0x200010 sampleLoader).eflags &&&
      interruptFlag ≠ 0 := sample_returns.enabled
  apply (each_step_cons _ _ _ _ _).mpr
  refine ⟨waiting, ?_⟩
  apply sample_requests_allowed enabled (Nat.le_of_ble_eq_true rfl)
    (idle_step enabled begins .instruction waiting)
  decide

theorem boot_idles_sample :
    IdlesOnBoot returningKmain 0x20C000 0x200010 sampleLoader (sampleEvents.filterMap requested)
      (run (idleStep 0x200010) (start returningKmain 0x20C000 0x200010 sampleLoader)
        sampleEvents) :=
  boot_idles returningKmain 0x20C000 0x200010 sampleLoader sample_returns sampleEvents
    sample_events_allowed

end LumenOS.IdleLoop
