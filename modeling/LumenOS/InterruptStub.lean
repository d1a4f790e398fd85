import LumenOS.DescendingStack

/-!
# The interrupt stubs of `isr.s`

The three macros are instruction lists over a 32-bit register file and flat
memory, entered as the processor leaves the stack for an interrupt gate of the
same privilege level and left by `iret`. `isr_handler` is a parameter bound by
the C calling convention. Arithmetic flags set by `add` are not tracked:
`iret` reloads the whole register.

After the call the stubs add twelve to the stack pointer where four would drop
the argument, so `popa` restores each register from a slot eight bytes too
high while the frame for `iret` still comes out right.
-/

namespace LumenOS.InterruptStub

open LumenOS.ByteMemory LumenOS.DescendingStack

set_option autoImplicit false

structure Cpu where
  eax : BitVec 32
  ebx : BitVec 32
  ecx : BitVec 32
  edx : BitVec 32
  esi : BitVec 32
  edi : BitVec 32
  ebp : BitVec 32
  esp : BitVec 32
  eip : BitVec 32
  cs : BitVec 32
  eflags : BitVec 32
  memory : Memory

def interruptFlag : BitVec 32 := 0x200

inductive Instr where
  | cli
  | sti
  | pushl (value : BitVec 32)
  | pusha
  | movEspEax
  | pushEax
  | callIsrHandler
  | addEsp (value : BitVec 32)
  | popa
  | iret
  deriving DecidableEq

/-- What surrounds a stub: the C handler, the return address of its call, the
address of the stub in the descriptor table and the code segment selector. -/
structure Environment where
  isrHandler : Cpu → Cpu
  returnAddress : BitVec 32
  stubAddress : BitVec 32
  selector : BitVec 32

def pushAllWords (words : List (BitVec 32)) (cpu : Cpu) : Cpu :=
  { cpu with
    esp := cpu.esp - BitVec.ofNat 32 (4 * words.length)
    memory := pushAll cpu.memory cpu.esp words }

def push (value : BitVec 32) (cpu : Cpu) : Cpu := pushAllWords [value] cpu

/-- `pusha` stores the stack pointer it started from; `popa` skips that slot. -/
def exec (environment : Environment) (cpu : Cpu) : Instr → Cpu
  | .cli => { cpu with eflags := cpu.eflags &&& ~~~interruptFlag }
  | .sti => { cpu with eflags := cpu.eflags ||| interruptFlag }
  | .pushl value => push value cpu
  | .pusha =>
      pushAllWords
        [cpu.eax, cpu.ecx, cpu.edx, cpu.ebx, cpu.esp, cpu.ebp, cpu.esi, cpu.edi] cpu
  | .movEspEax => { cpu with eax := cpu.esp }
  | .pushEax => push cpu.eax cpu
  | .callIsrHandler =>
      let returned := environment.isrHandler (push environment.returnAddress cpu)
      { returned with esp := returned.esp + 4 }
  | .addEsp value => { cpu with esp := cpu.esp + value }
  | .popa =>
      { cpu with
        edi := wordAt cpu.memory cpu.esp
        esi := wordAt cpu.memory (cpu.esp + 4)
        ebp := wordAt cpu.memory (cpu.esp + 8)
        ebx := wordAt cpu.memory (cpu.esp + 16)
        edx := wordAt cpu.memory (cpu.esp + 20)
        ecx := wordAt cpu.memory (cpu.esp + 24)
        eax := wordAt cpu.memory (cpu.esp + 28)
        esp := cpu.esp + 32 }
  | .iret =>
      { cpu with
        eip := wordAt cpu.memory cpu.esp
        cs := wordAt cpu.memory (cpu.esp + 4)
        eflags := wordAt cpu.memory (cpu.esp + 8)
        esp := cpu.esp + 12 }

def execAll (environment : Environment) (program : List Instr) (cpu : Cpu) : Cpu :=
  program.foldl (exec environment) cpu

def isrNoerr (num : BitVec 32) : List Instr :=
  [.cli, .pushl 0, .pushl num, .pusha, .movEspEax, .pushEax, .callIsrHandler,
   .addEsp 12, .popa, .sti, .iret]

def isrErr (num : BitVec 32) : List Instr :=
  [.cli, .pushl num, .pusha, .movEspEax, .pushEax, .callIsrHandler,
   .addEsp 12, .popa, .sti, .iret]

def irq (num : BitVec 32) : List Instr :=
  [.pushl 0, .pushl num, .cli, .pusha, .movEspEax, .pushEax, .callIsrHandler,
   .addEsp 12, .popa, .sti, .iret]

/-- The vectors for which the processor pushes an error code. -/
def HasErrorCode (vector : Nat) : Prop := vector ∈ [8, 10, 11, 12, 13, 14, 17]

instance (vector : Nat) : Decidable (HasErrorCode vector) :=
  inferInstanceAs (Decidable (_ ∈ _))

/-- The table of macro invocations at the end of `isr.s`. -/
def stub (vector : Nat) : Option (List Instr) :=
  let num := BitVec.ofNat 32 vector
  if vector ∈ [8, 10, 11, 12, 13, 14, 17] then some (isrErr num)
  else if vector ≤ 31 then some (isrNoerr num)
  else if vector ≤ 47 then some (irq num)
  else if vector = 128 then some (isrNoerr num)
  else none

/-- Entry through the interrupt gate: flags, code segment, instruction pointer
and, for some vectors, an error code are pushed and interrupts are masked. -/
def enterInterrupt (environment : Environment) (vector : Nat) (errorCode : BitVec 32)
    (cpu : Cpu) : Cpu :=
  let words := [cpu.eflags, cpu.cs, cpu.eip] ++ if HasErrorCode vector then [errorCode] else []
  { pushAllWords words cpu with
    eip := environment.stubAddress
    cs := environment.selector
    eflags := cpu.eflags &&& ~~~interruptFlag }

structure IsrRegs where
  edi : BitVec 32
  esi : BitVec 32
  ebp : BitVec 32
  esp : BitVec 32
  ebx : BitVec 32
  edx : BitVec 32
  ecx : BitVec 32
  eax : BitVec 32
  intNo : BitVec 32
  errCode : BitVec 32

/-- The packed structure at the address a handler is given. -/
def isrRegsAt (memory : Memory) (regs : BitVec 32) : IsrRegs where
  edi := wordAt memory regs
  esi := wordAt memory (regs + 4)
  ebp := wordAt memory (regs + 8)
  esp := wordAt memory (regs + 12)
  ebx := wordAt memory (regs + 16)
  edx := wordAt memory (regs + 20)
  ecx := wordAt memory (regs + 24)
  eax := wordAt memory (regs + 28)
  intNo := wordAt memory (regs + 32)
  errCode := wordAt memory (regs + 36)

/-- One call of a handler, entered with its return address at the stack pointer
and its argument above it, keeps to the i386 calling convention: five registers
are preserved, and the thirteen words above the argument, which hold both
`*regs` and the words for `iret`, are not written. Everything else may be. -/
structure FollowsCdecl (handler : Cpu → Cpu) (entry : Cpu) : Prop where
  ebx : (handler entry).ebx = entry.ebx
  esi : (handler entry).esi = entry.esi
  edi : (handler entry).edi = entry.edi
  ebp : (handler entry).ebp = entry.ebp
  esp : (handler entry).esp = entry.esp
  frame : ∀ i, i < 52 →
    readByte (handler entry).memory (entry.esp.toNat + 8 + i) =
      readByte entry.memory (entry.esp.toNat + 8 + i)

/-- The state in which the stub enters the handler. -/
def handlerEntry (environment : Environment) (vector : Nat) (errorCode : BitVec 32)
    (program : List Instr) (cpu : Cpu) : Cpu :=
  push environment.returnAddress (execAll environment
    (program.takeWhile (· ≠ .callIsrHandler)) (enterInterrupt environment vector errorCode cpu))

def stubResult (environment : Environment) (vector : Nat) (errorCode : BitVec 32)
    (program : List Instr) (cpu : Cpu) : Cpu :=
  execAll environment program (enterInterrupt environment vector errorCode cpu)

/-- The interrupt goes unnoticed: the handler sees the interrupted registers
and the vector number, and the interrupted code gets everything back. -/
structure Transparent (environment : Environment) (vector : Nat) (errorCode : BitVec 32)
    (program : List Instr) (cpu : Cpu) : Prop where
  frame :
    let entry := handlerEntry environment vector errorCode program cpu
    let regs := isrRegsAt entry.memory (wordAt entry.memory (entry.esp + 4))
    regs.edi = cpu.edi ∧ regs.esi = cpu.esi ∧ regs.ebp = cpu.ebp ∧ regs.ebx = cpu.ebx ∧
      regs.edx = cpu.edx ∧ regs.ecx = cpu.ecx ∧ regs.eax = cpu.eax ∧
      regs.intNo = BitVec.ofNat 32 vector
  resumed :
    let after := stubResult environment vector errorCode program cpu
    after.eip = cpu.eip ∧ after.cs = cpu.cs ∧ after.eflags = cpu.eflags ∧ after.esp = cpu.esp
  registers :
    let after := stubResult environment vector errorCode program cpu
    after.edi = cpu.edi ∧ after.esi = cpu.esi ∧ after.ebp = cpu.ebp ∧ after.ebx = cpu.ebx ∧
      after.edx = cpu.edx ∧ after.ecx = cpu.ecx ∧ after.eax = cpu.eax

/-- The word the frame holds above the vector number. -/
def frameErrorCode (vector : Nat) (errorCode : BitVec 32) : BitVec 32 :=
  if HasErrorCode vector then errorCode else 0

/-- Each register already holds what stands two slots above its own. -/
structure ShiftInvisible (vector : Nat) (errorCode : BitVec 32) (cpu : Cpu) : Prop where
  edi : cpu.edi = cpu.ebp
  esi : cpu.esi = cpu.esp - 20
  ebp : cpu.ebp = cpu.ebx
  ebx : cpu.ebx = cpu.ecx
  edx : cpu.edx = cpu.eax
  ecx : cpu.ecx = BitVec.ofNat 32 vector
  eax : cpu.eax = frameErrorCode vector errorCode

/-- The words on the stack when the handler is entered, first pushed first. -/
def frameWords (environment : Environment) (vector : Nat) (errorCode : BitVec 32) (cpu : Cpu) :
    List (BitVec 32) :=
  [cpu.eflags, cpu.cs, cpu.eip, frameErrorCode vector errorCode, BitVec.ofNat 32 vector,
   cpu.eax, cpu.ecx, cpu.edx, cpu.ebx, cpu.esp - 20, cpu.ebp, cpu.esi, cpu.edi,
   cpu.esp - 52, environment.returnAddress]

theorem stub_cases {vector : Nat} {program : List Instr} (found : stub vector = some program) :
    (HasErrorCode vector ∧ program = isrErr (BitVec.ofNat 32 vector)) ∨
      (¬ HasErrorCode vector ∧ program = isrNoerr (BitVec.ofNat 32 vector)) ∨
      (¬ HasErrorCode vector ∧ program = irq (BitVec.ofNat 32 vector)) := by
  unfold stub at found
  simp only at found
  split_ifs at found with error exception request syscall
  · exact Or.inl ⟨error, (Option.some.inj found).symm⟩
  · exact Or.inr (Or.inl ⟨error, (Option.some.inj found).symm⟩)
  · exact Or.inr (Or.inr ⟨error, (Option.some.inj found).symm⟩)
  · exact Or.inr (Or.inl ⟨error, (Option.some.inj found).symm⟩)

theorem stub_exists_iff (vector : Nat) :
    (∃ program, stub vector = some program) ↔ vector ≤ 47 ∨ vector = 128 := by
  constructor
  · intro found
    obtain ⟨program, found⟩ := found
    unfold stub at found
    simp only at found
    split_ifs at found with error
    · simp only [List.mem_cons, List.not_mem_nil, or_false] at error
      omega
    · omega
    · omega
    · omega
  · intro bound
    unfold stub
    simp only
    split_ifs
    · exact ⟨_, rfl⟩
    · exact ⟨_, rfl⟩
    · exact ⟨_, rfl⟩
    · exact ⟨_, rfl⟩
    · omega

def isrExit : List Instr := [.addEsp 12, .popa, .sti, .iret]

def returned (environment : Environment) (entry : Cpu) : Cpu :=
  { environment.isrHandler entry with esp := (environment.isrHandler entry).esp + 4 }

theorem stub_result_exit (environment : Environment) {vector : Nat} {program : List Instr}
    (errorCode : BitVec 32) (cpu : Cpu) (found : stub vector = some program) :
    stubResult environment vector errorCode program cpu =
      execAll environment isrExit
        (returned environment (handlerEntry environment vector errorCode program cpu)) := by
  rcases stub_cases found with ⟨_, rfl⟩ | ⟨_, rfl⟩ | ⟨_, rfl⟩ <;> rfl

theorem push_words_append (first second : List (BitVec 32)) (cpu : Cpu) :
    pushAllWords second (pushAllWords first cpu) = pushAllWords (first ++ second) cpu := by
  have depth : cpu.esp - BitVec.ofNat 32 (4 * first.length) -
      BitVec.ofNat 32 (4 * second.length) =
      cpu.esp - BitVec.ofNat 32 (4 * (first ++ second).length) := by
    rw [List.length_append]
    bv_omega
  unfold pushAllWords
  simp only [push_all_append, depth]

/-- What the processor and every stub have done before `pusha`. -/
def framed (environment : Environment) (vector : Nat) (errorCode flags : BitVec 32)
    (cpu : Cpu) : Cpu :=
  { pushAllWords [cpu.eflags, cpu.cs, cpu.eip, frameErrorCode vector errorCode,
      BitVec.ofNat 32 vector] cpu with
    eip := environment.stubAddress
    cs := environment.selector
    eflags := flags }

theorem framed_with_error (environment : Environment) (vector : Nat)
    (errorCode flags : BitVec 32) (cpu : Cpu) (error : HasErrorCode vector) :
    framed environment vector errorCode flags cpu =
      { push (BitVec.ofNat 32 vector)
          (pushAllWords ([cpu.eflags, cpu.cs, cpu.eip] ++ [errorCode]) cpu) with
        eip := environment.stubAddress
        cs := environment.selector
        eflags := flags } := by
  unfold framed frameErrorCode push
  rw [if_pos error, push_words_append]
  rfl

theorem framed_without_error (environment : Environment) (vector : Nat)
    (errorCode flags : BitVec 32) (cpu : Cpu) (noError : ¬ HasErrorCode vector) :
    framed environment vector errorCode flags cpu =
      { push (BitVec.ofNat 32 vector)
          (push 0 (pushAllWords ([cpu.eflags, cpu.cs, cpu.eip] ++ []) cpu)) with
        eip := environment.stubAddress
        cs := environment.selector
        eflags := flags } := by
  unfold framed frameErrorCode push
  rw [if_neg noError, push_words_append, push_words_append]
  rfl

theorem handler_entry_framed (environment : Environment) {vector : Nat} {program : List Instr}
    (errorCode : BitVec 32) (cpu : Cpu) (found : stub vector = some program) :
    ∃ flags, handlerEntry environment vector errorCode program cpu =
      push environment.returnAddress (execAll environment [.pusha, .movEspEax, .pushEax]
        (framed environment vector errorCode flags cpu)) := by
  -- both `cli` instructions and the interrupt gate clear the same flag
  let flags := cpu.eflags &&& ~~~interruptFlag &&& ~~~interruptFlag
  rcases stub_cases found with ⟨error, rfl⟩ | ⟨noError, rfl⟩ | ⟨noError, rfl⟩
  · refine ⟨flags, ?_⟩
    rw [framed_with_error environment vector errorCode flags cpu error]
    unfold handlerEntry enterInterrupt
    simp only [if_pos error]
    rfl
  · refine ⟨flags, ?_⟩
    rw [framed_without_error environment vector errorCode flags cpu noError]
    unfold handlerEntry enterInterrupt
    simp only [if_neg noError]
    rfl
  · refine ⟨flags, ?_⟩
    rw [framed_without_error environment vector errorCode flags cpu noError]
    unfold handlerEntry enterInterrupt
    simp only [if_neg noError]
    rfl

theorem sub_depth (top : BitVec 32) (first second : Nat) :
    top - BitVec.ofNat 32 first - BitVec.ofNat 32 second =
      top - BitVec.ofNat 32 (first + second) := by
  bv_omega

theorem saved_registers (environment : Environment) (cpu : Cpu) :
    (push environment.returnAddress
        (execAll environment [.pusha, .movEspEax, .pushEax] cpu)).memory =
        (pushAllWords ([cpu.eax, cpu.ecx, cpu.edx, cpu.ebx, cpu.esp, cpu.ebp, cpu.esi, cpu.edi] ++
          [cpu.esp - 32, environment.returnAddress]) cpu).memory ∧
      (push environment.returnAddress
          (execAll environment [.pusha, .movEspEax, .pushEax] cpu)).esp =
        cpu.esp - 40 := by
  have merged := push_words_append
    ([cpu.eax, cpu.ecx, cpu.edx, cpu.ebx, cpu.esp, cpu.ebp, cpu.esi, cpu.edi] ++ [cpu.esp - 32])
    [environment.returnAddress] cpu
  rw [← push_words_append] at merged
  have depth := sub_depth cpu.esp 32 4
  have total := sub_depth cpu.esp 36 4
  have memory := congrArg Cpu.memory merged
  constructor
  · exact memory
  · change cpu.esp - BitVec.ofNat 32 32 - BitVec.ofNat 32 4 - BitVec.ofNat 32 4 = _
    rw [depth, total]
    rfl

theorem handler_entry_words (environment : Environment) {vector : Nat} {program : List Instr}
    (errorCode : BitVec 32) (cpu : Cpu) (found : stub vector = some program) :
    (handlerEntry environment vector errorCode program cpu).memory =
        pushAll cpu.memory cpu.esp (frameWords environment vector errorCode cpu) ∧
      (handlerEntry environment vector errorCode program cpu).esp = cpu.esp - 60 := by
  obtain ⟨flags, entry⟩ := handler_entry_framed environment errorCode cpu found
  have saved := saved_registers environment (framed environment vector errorCode flags cpu)
  rw [← entry] at saved
  rw [saved.1, saved.2]
  constructor
  · have depth := sub_depth cpu.esp 20 32
    have merged := push_all_append cpu.memory cpu.esp
      [cpu.eflags, cpu.cs, cpu.eip, frameErrorCode vector errorCode, BitVec.ofNat 32 vector]
      [cpu.eax, cpu.ecx, cpu.edx, cpu.ebx, cpu.esp - 20, cpu.ebp, cpu.esi, cpu.edi,
        cpu.esp - 20 - 32, environment.returnAddress]
    unfold frameWords
    change cpu.esp - 20 - 32 = cpu.esp - 52 at depth
    rw [← depth]
    exact merged.symm
  · exact sub_depth cpu.esp 20 40

theorem frame_word (environment : Environment) {vector : Nat} {program : List Instr}
    (errorCode : BitVec 32) (cpu : Cpu) (found : stub vector = some program) (index : Nat)
    (word : BitVec 32) (held : (frameWords environment vector errorCode cpu)[index]? = some word) :
    wordAt (handlerEntry environment vector errorCode program cpu).memory
        (cpu.esp - BitVec.ofNat 32 (4 * (index + 1))) = word := by
  obtain ⟨bound, value⟩ := List.getElem?_eq_some_iff.mp held
  have fits : (frameWords environment vector errorCode cpu).length = 15 := rfl
  rw [(handler_entry_words environment errorCode cpu found).1, ← value]
  apply word_at_pushed
  omega

theorem frame_word_kept (environment : Environment) {vector : Nat} {program : List Instr}
    (errorCode : BitVec 32) (cpu : Cpu) (found : stub vector = some program)
    (convention : FollowsCdecl environment.isrHandler
      (handlerEntry environment vector errorCode program cpu)) (index : Nat) (inside : index < 13)
    (word : BitVec 32) (held : (frameWords environment vector errorCode cpu)[index]? = some word) :
    wordAt (environment.isrHandler
        (handlerEntry environment vector errorCode program cpu)).memory
        (cpu.esp - BitVec.ofNat 32 (4 * (index + 1))) = word := by
  rw [← frame_word environment errorCode cpu found index word held]
  apply word_at_congr
  intro i iBound
  have depth := (handler_entry_words environment errorCode cpu found).2
  have kept := convention.frame (48 - 4 * index + i) (by omega)
  have address : u32 ((cpu.esp - BitVec.ofNat 32 (4 * (index + 1))).toNat + i) =
      u32 ((handlerEntry environment vector errorCode program cpu).esp.toNat + 8 +
        (48 - 4 * index + i)) := by
    rw [depth, BitVec.toNat_sub, BitVec.toNat_sub, BitVec.toNat_ofNat]
    unfold u32
    change _ = ((2 ^ 32 - 60 + cpu.esp.toNat) % 2 ^ 32 + 8 + (48 - 4 * index + i)) % 2 ^ 32
    omega
  rw [read_byte_congr _ _ _ address, read_byte_congr _ _ _ address]
  exact kept

theorem frame_slot (sp : BitVec 32) {offset index depth : Nat}
    (total : offset + 4 * (index + 1) = depth) :
    sp - BitVec.ofNat 32 depth + BitVec.ofNat 32 offset =
      sp - BitVec.ofNat 32 (4 * (index + 1)) := by
  subst total
  bv_omega

theorem frame_holds_registers (environment : Environment) {vector : Nat} {program : List Instr}
    (errorCode : BitVec 32) (cpu : Cpu) (found : stub vector = some program) :
    let entry := handlerEntry environment vector errorCode program cpu
    let regs := isrRegsAt entry.memory (wordAt entry.memory (entry.esp + 4))
    regs.edi = cpu.edi ∧ regs.esi = cpu.esi ∧ regs.ebp = cpu.ebp ∧ regs.ebx = cpu.ebx ∧
      regs.edx = cpu.edx ∧ regs.ecx = cpu.ecx ∧ regs.eax = cpu.eax ∧
      regs.intNo = BitVec.ofNat 32 vector := by
  have word := frame_word environment errorCode cpu found
  have depth := (handler_entry_words environment errorCode cpu found).2
  have argument : wordAt (handlerEntry environment vector errorCode program cpu).memory
      ((handlerEntry environment vector errorCode program cpu).esp + 4) = cpu.esp - 52 := by
    rw [depth, ← word 13 (cpu.esp - 52) rfl]
    congr 1
    bv_omega
  intro entry regs
  have at_slot : ∀ offset index value, offset + 4 * (index + 1) = 52 →
      (frameWords environment vector errorCode cpu)[index]? = some value →
      wordAt entry.memory (wordAt entry.memory (entry.esp + 4) + BitVec.ofNat 32 offset) =
        value := by
    intro offset index value total held
    rw [argument]
    change wordAt _ (cpu.esp - BitVec.ofNat 32 52 + BitVec.ofNat 32 offset) = value
    rw [frame_slot cpu.esp total]
    exact word index value held
  refine ⟨?_, at_slot 4 11 cpu.esi rfl rfl, at_slot 8 10 cpu.ebp rfl rfl,
    at_slot 16 8 cpu.ebx rfl rfl, at_slot 20 7 cpu.edx rfl rfl, at_slot 24 6 cpu.ecx rfl rfl,
    at_slot 28 5 cpu.eax rfl rfl, at_slot 32 4 (BitVec.ofNat 32 vector) rfl rfl⟩
  change wordAt entry.memory (wordAt entry.memory (entry.esp + 4)) = cpu.edi
  rw [argument]
  exact word 12 cpu.edi rfl

theorem popped_word (environment : Environment) {vector : Nat} {program : List Instr}
    (errorCode : BitVec 32) (cpu : Cpu) (found : stub vector = some program)
    (convention : FollowsCdecl environment.isrHandler
      (handlerEntry environment vector errorCode program cpu))
    (offset index : Nat) (value : BitVec 32)
    (total : offset + 4 * (index + 1) = 44)
    (held : (frameWords environment vector errorCode cpu)[index]? = some value) :
    wordAt (environment.isrHandler
        (handlerEntry environment vector errorCode program cpu)).memory
      ((environment.isrHandler (handlerEntry environment vector errorCode program cpu)).esp +
        4 + 12 + BitVec.ofNat 32 offset) = value := by
  have depth : (environment.isrHandler
      (handlerEntry environment vector errorCode program cpu)).esp = cpu.esp - 60 :=
    convention.esp.trans (handler_entry_words environment errorCode cpu found).2
  have bottom : cpu.esp - 60 + 4 + 12 = cpu.esp - BitVec.ofNat 32 44 := by
    bv_omega
  rw [depth, bottom, frame_slot cpu.esp total]
  exact frame_word_kept environment errorCode cpu found convention index (by omega) value held

/-- What the stub leaves in the interrupted code: `iret` finds its frame, and
each register takes the word two slots above its own. -/
theorem stub_result_words (environment : Environment) {vector : Nat} {program : List Instr}
    (errorCode : BitVec 32) (cpu : Cpu) (found : stub vector = some program)
    (convention : FollowsCdecl environment.isrHandler
      (handlerEntry environment vector errorCode program cpu)) :
    let after := stubResult environment vector errorCode program cpu
    (after.eip = cpu.eip ∧ after.cs = cpu.cs ∧ after.eflags = cpu.eflags ∧ after.esp = cpu.esp) ∧
      after.edi = cpu.ebp ∧ after.esi = cpu.esp - 20 ∧ after.ebp = cpu.ebx ∧
      after.ebx = cpu.ecx ∧ after.edx = cpu.eax ∧ after.ecx = BitVec.ofNat 32 vector ∧
      after.eax = frameErrorCode vector errorCode := by
  have popped := popped_word environment errorCode cpu found convention
  have depth : (environment.isrHandler
      (handlerEntry environment vector errorCode program cpu)).esp = cpu.esp - 60 :=
    convention.esp.trans (handler_entry_words environment errorCode cpu found).2
  have second : ∀ base : BitVec 32, base + 32 + 4 = base + BitVec.ofNat 32 36 := by
    intro base
    bv_omega
  have third : ∀ base : BitVec 32, base + 32 + 8 = base + BitVec.ofNat 32 40 := by
    intro base
    bv_omega
  have sp : cpu.esp - 60 + 4 + 12 + 32 + 12 = cpu.esp := by
    bv_omega
  have first : ∀ base : BitVec 32, base = base + BitVec.ofNat 32 0 := by
    intro base
    bv_omega
  intro after
  have exits : after = execAll environment isrExit
      (returned environment (handlerEntry environment vector errorCode program cpu)) :=
    stub_result_exit environment errorCode cpu found
  rw [exits]
  refine ⟨⟨popped 32 2 cpu.eip rfl rfl, ?_, ?_, ?_⟩, ?_, popped 4 9 (cpu.esp - 20) rfl rfl,
    popped 8 8 cpu.ebx rfl rfl, popped 16 6 cpu.ecx rfl rfl, popped 20 5 cpu.eax rfl rfl,
    popped 24 4 (BitVec.ofNat 32 vector) rfl rfl,
    popped 28 3 (frameErrorCode vector errorCode) rfl rfl⟩
  · have code := popped 36 1 cpu.cs rfl rfl
    rw [← second] at code
    exact code
  · have flags := popped 40 0 cpu.eflags rfl rfl
    rw [← third] at flags
    exact flags
  · change (environment.isrHandler
      (handlerEntry environment vector errorCode program cpu)).esp + 4 + 12 + 32 + 12 = cpu.esp
    rw [depth, sp]
  · have bottom := popped 0 10 cpu.ebp rfl rfl
    rw [← first] at bottom
    exact bottom

/-- A stub is transparent exactly where the shift by two slots does not show. -/
theorem transparent_iff_shift_invisible (environment : Environment) (vector : Nat)
    (program : List Instr) (errorCode : BitVec 32) (cpu : Cpu)
    (found : stub vector = some program)
    (convention : FollowsCdecl environment.isrHandler
      (handlerEntry environment vector errorCode program cpu)) :
    Transparent environment vector errorCode program cpu ↔
      ShiftInvisible vector errorCode cpu := by
  obtain ⟨resumed, edi, esi, ebp, ebx, edx, ecx, eax⟩ :=
    stub_result_words environment errorCode cpu found convention
  constructor
  · intro transparent
    obtain ⟨keepsEdi, keepsEsi, keepsEbp, keepsEbx, keepsEdx, keepsEcx, keepsEax⟩ :=
      transparent.registers
    exact ⟨keepsEdi.symm.trans edi, keepsEsi.symm.trans esi, keepsEbp.symm.trans ebp,
      keepsEbx.symm.trans ebx, keepsEdx.symm.trans edx, keepsEcx.symm.trans ecx,
      keepsEax.symm.trans eax⟩
  · intro invisible
    exact {
      frame := frame_holds_registers environment errorCode cpu found
      resumed := resumed
      registers := ⟨edi.trans invisible.edi.symm, esi.trans invisible.esi.symm,
        ebp.trans invisible.ebp.symm, ebx.trans invisible.ebx.symm,
        edx.trans invisible.edx.symm, ecx.trans invisible.ecx.symm,
        eax.trans invisible.eax.symm⟩ }

/-- A handler that clobbers the registers it may, draws a cell on the screen and
stores to a variable of its own. -/
def clobberingHandler (cpu : Cpu) : Cpu :=
  { cpu with
    eax := 0x20
    ecx := 1
    edx := 2
    memory := store32 (store16 cpu.memory 0xB8000 0x0F61) 0x204000 1 }

theorem clobbering_handler_convention (entry : Cpu) (above : 0x204000 ≤ entry.esp.toNat)
    (below : entry.esp.toNat + 60 ≤ 2 ^ 32) : FollowsCdecl clobberingHandler entry where
  ebx := rfl
  esi := rfl
  edi := rfl
  ebp := rfl
  esp := rfl
  frame i inside := by
    -- the frame lies above both places the handler stores to
    have variableApart : ∀ j, j < 4 →
        u32 (entry.esp.toNat + 8 + i) ≠ u32 (0x204000 + j) := by
      intro j bound
      unfold u32
      omega
    have cellApart : ∀ j, j < 2 →
        u32 (entry.esp.toNat + 8 + i) ≠ u32 (0xB8000 + j) := by
      intro j bound
      unfold u32
      omega
    change readByte (store32 (store16 entry.memory 0xB8000 0x0F61) 0x204000 1) _ = _
    rw [store32_outside _ _ _ _ variableApart, store16_outside _ _ _ _ cellApart]

def sampleEnvironment : Environment where
  isrHandler := clobberingHandler
  returnAddress := 0x200100
  stubAddress := 0x200000
  selector := 0x08

def interruptedCpu (eax ebx ecx edx esi edi ebp : BitVec 32) : Cpu where
  eax := eax
  ebx := ebx
  ecx := ecx
  edx := edx
  esi := esi
  edi := edi
  ebp := ebp
  esp := 0x300000
  eip := 0x201000
  cs := 0x08
  eflags := 0x202
  memory := fun _ => 0

theorem sample_convention {vector : Nat} {program : List Instr} (errorCode : BitVec 32)
    (cpu : Cpu) (found : stub vector = some program) (above : 0x204100 ≤ cpu.esp.toNat) :
    FollowsCdecl sampleEnvironment.isrHandler
      (handlerEntry sampleEnvironment vector errorCode program cpu) := by
  have depth := (handler_entry_words sampleEnvironment errorCode cpu found).2
  have place : (handlerEntry sampleEnvironment vector errorCode program cpu).esp.toNat =
      cpu.esp.toNat - 60 := by
    rw [depth]
    bv_omega
  have bounded := cpu.esp.isLt
  apply clobbering_handler_convention
  · omega
  · omega

theorem transparent_at_keyboard_vector :
    Transparent sampleEnvironment 33 0 (irq 33)
        (interruptedCpu 0 33 33 0 (0x300000 - 20) 33 33) ↔
      ShiftInvisible 33 0 (interruptedCpu 0 33 33 0 (0x300000 - 20) 33 33) :=
  transparent_iff_shift_invisible sampleEnvironment 33 (irq 33) 0
    (interruptedCpu 0 33 33 0 (0x300000 - 20) 33 33) rfl
    (sample_convention 0 _ rfl (Nat.le_of_ble_eq_true rfl))

/-- A keyboard interrupt with `ebp` zero and `edi` one resumes with `edi` zero. -/
theorem keyboard_interrupt_corrupts_edi :
    stub 33 = some (irq 33) ∧
      FollowsCdecl sampleEnvironment.isrHandler
        (handlerEntry sampleEnvironment 33 0 (irq 33) (interruptedCpu 0 0 0 0 0 1 0)) ∧
      ¬ Transparent sampleEnvironment 33 0 (irq 33) (interruptedCpu 0 0 0 0 0 1 0) := by
  have found : stub 33 = some (irq 33) := rfl
  have convention := sample_convention 0 (interruptedCpu 0 0 0 0 0 1 0) found
    (Nat.le_of_ble_eq_true rfl)
  refine ⟨found, convention, ?_⟩
  intro transparent
  have words := stub_result_words sampleEnvironment 0 (interruptedCpu 0 0 0 0 0 1 0) found
    convention
  have kept := transparent.registers.1
  have taken := words.2.1
  rw [kept] at taken
  exact absurd taken (by decide)

end LumenOS.InterruptStub
