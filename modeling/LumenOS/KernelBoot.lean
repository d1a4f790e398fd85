import LumenOS.Fat32Search
import LumenOS.Fat32Stale
import LumenOS.Fat32Termination
import LumenOS.ItoaBuffer
import LumenOS.ModuleLookup
import LumenOS.PrintedText
import LumenOS.ScreenWrites
import LumenOS.SerialLine
import LumenOS.VectorDispatch

/-!
# What `kmain` comes to

From the console to its last loop, on one memory. Between its statements
interrupts of the keyboard may be served, and what a call finds on the stack is
what earlier calls and interrupts have left there; the registers an interrupt
stub loses are not part of this picture. Since the storage requests are refused,
these leavings decide how far the kernel gets.
-/

namespace LumenOS.KernelBoot

open LumenOS.ByteMemory LumenOS.ConsoleModel LumenOS.KeyboardModel LumenOS.StepRuns
open LumenOS.StdioModel LumenOS.DescriptorTables LumenOS.SerialLine LumenOS.ModuleLookup
open LumenOS.Fat32Model LumenOS.Fat32Wiring LumenOS.Fat32Stale LumenOS.Fat32Search
open LumenOS.NumericDirectives LumenOS.ItoaBuffer LumenOS.PrintfAgreement LumenOS.PrintedText
open LumenOS.RecordTable LumenOS.SilentEcho LumenOS.ScreenWrites LumenOS.TerminalRefinement
open LumenOS.LineWrapping
open LumenOS.Fat32Termination (stage1Name)

set_option autoImplicit false

def bytes (text : String) : List Byte := text.toList.map charByte

inductive Panic where
  | multibootMagicInvalid
  | fsImageNotFound
  | fatMountFailed
  | openRootFailed
  | fileNotFound
  deriving DecidableEq

def Panic.message : Panic → List Byte
  | multibootMagicInvalid => bytes "Multiboot Magic Invalid!"
  | fsImageNotFound => bytes "Fs image not found as a GRUB module"
  | fatMountFailed => bytes "FAT mount failed"
  | openRootFailed => bytes "Open root failed"
  | fileNotFound => bytes "File not found"

/-- `kmain` returns to `boot.s`, which halts, or it is in its last loop. -/
inductive Ending where
  | panicked (e : Panic)
  | looping (file : File)
  deriving DecidableEq

def stackSize : Nat := 16384

/-- Where the linker and the compiler put what `kmain` and its callees use: the
empty string, the sector buffer, the stack and the two buffers on it. -/
structure Linked where
  statics : Statics
  emptyString : Nat
  sector : Nat
  stack : Nat
  bpb : Nat
  findBuf : Nat

/-- What passes between two statements: the scancodes of the keyboard interrupts
served, and the bytes left on the stack. -/
structure Gap where
  scancodes : List Byte
  held : Memory

def onStack (stack : Nat) (held memory : Memory) : Memory := fun address =>
  if stack ≤ address ∧ address < stack + stackSize then held address else memory address

def Keys.withMemory (keys : Keys) (memory : Memory) : Keys :=
  { keys with console := { keys.console with memory := memory } }

def meanwhile (linked : Linked) (gap : Gap) (keys : Keys) : Keys :=
  let served := run keyStep keys gap.scancodes
  Keys.withMemory served (onStack linked.stack gap.held served.console.memory)

def printfKeys (keys : Keys) (format : List Byte) (args : List Arg) : Option Keys :=
  (printfConsole keys.console format args).map fun console => { keys with console := console }

/-- The macro `panic(e)`. -/
def panicFormat : List Byte := bytes "[STAGE0] %s\n[STAGE0] KERNEL PANIC!"

def panic (e : Panic) (keys : Keys) : Option (Ending × Keys) := do
  let keys ← printfKeys keys panicFormat [.string (some e.message)]
  some (.panicked e, keys)

def initializedText : List Byte := bytes "[STAGE0] Stage 0 Initialized\n"

/-- `kmain` up to the check of the magic, interrupts still to be served. -/
def kmainStart (linked : Linked) (processor : Processor) (memory : Memory) : Keys :=
  let keys := bootKeys memory
  let processor := installTables linked.statics { processor with memory := keys.console.memory }
  { keys with
    console := { keys.console with
      memory := processor.memory
      serial := keys.console.serial ++ lineText initializedText } }

def kmainFind (linked : Linked) (rounds : Nat) (diskRead : DiskRead) (fs : Fs) (root : File)
    (keys : Keys) : Option (Ending × Keys) := do
  let (code, file, memory) ← (fat32Find diskRead fs linked.sector linked.findBuf rounds root
    stage1Name keys.console.memory).toOption
  let keys := Keys.withMemory keys memory
  if code ≠ 0 then panic .fileNotFound keys
  else do
    let file ← file
    some (.looping file, keys)

def kmainMount (linked : Linked) (gaps : Nat → Gap) (rounds : Nat) (diskRead : DiskRead)
    (keys : Keys) : Option (Ending × Keys) := do
  let (code, fs, memory) := fat32Mount diskRead linked.bpb 0 keys.console.memory
  let keys := Keys.withMemory keys memory
  if code ≠ 0 then panic .fatMountFailed keys
  else do
    let fs ← fs
    let (code, root) := fat32OpenRoot fs
    if code ≠ 0 then panic .openRootFailed keys
    else kmainFind linked rounds diskRead fs root (meanwhile linked (gaps 2) keys)

def foundFormat : List Byte := bytes "[STAGE0] Found fs image at %p, size %x bytes\n"

def kmainImage (linked : Linked) (gaps : Nat → Gap) (rounds found : Nat) (fsimg : Outputs)
    (keys : Keys) : Option (Ending × Keys) :=
  if found = 0 then panic .fsImageNotFound keys
  else do
    let keys ← printfKeys keys foundFormat
      [.pointer (UInt32.ofNat fsimg.outAddr), .word (UInt32.ofNat fsimg.outSize)]
    kmainMount linked gaps rounds (memdiskRead (fsUseMemdisk fsimg.outAddr fsimg.outSize))
      (meanwhile linked (gaps 1) keys)

/-- Every loop may make so many rounds; there is no result where one needs more. -/
def kmain (linked : Linked) (processor : Processor) (gaps : Nat → Gap) (rounds multibootMagic
    mbInfo : Nat) (memory : Memory) : Option (Ending × Keys) :=
  let keys := meanwhile linked (gaps 0) (kmainStart linked processor memory)
  if multibootMagic ≠ 0x2BADB002 then panic .multibootMagicInvalid keys
  else do
    let (found, fsimg) ← multibootFindModule rounds keys.console.memory mbInfo ⟨0, 0⟩
      linked.emptyString
    kmainImage linked gaps rounds found fsimg keys

section Spec

/-- The first module with a string, whatever it says: the name asked for is empty. -/
def bootModule (memory : Memory) (mbInfo : Nat) : Option MultibootModule :=
  let info := multibootInfo memory mbInfo
  if mbInfo = 0 ∨ info.flags &&& (1 <<< 3) = 0 then none
  else ((List.range info.modsCount).map (moduleAt memory info.modsAddr)).find?
    fun mod => mod.string ≠ 0

/-- The bytes at `bpb` pass for a boot sector. -/
def PassesMount (bpb : Bpb) : Prop := bpb.fatSize32 ≠ 0 ∧ bpb.bytesPerSector = 512

instance (bpb : Bpb) : Decidable (PassesMount bpb) := inferInstanceAs (Decidable (_ ∧ _))

/-- What a scan of the bytes at `findBuf` leads to, if it leads to anything. -/
def searchEnding (findBuf : Nat) (held : Memory) (bpb : Bpb) : Option Ending :=
  if fatEoc ≤ bpb.rootCluster then some (.panicked .fileNotFound)
  else
    match scanEntries held findBuf stage1Name ((mountedFs 0 bpb).bytesPerCluster / 32) 0 with
    | .endOfDirectory => some (.panicked .fileNotFound)
    | .found file => some (.looping file)
    | .exhausted => none

/-- The magic, whether there is a module with a string, and what was left on the
stack: nothing else counts. -/
def bootEnding (linked : Linked) (gaps : Nat → Gap) (multibootMagic : Nat)
    (module : Option MultibootModule) : Option Ending :=
  let bpb := bpbAt (gaps 1).held linked.bpb
  if multibootMagic ≠ 0x2BADB002 then some (.panicked .multibootMagicInvalid)
  else if module.isNone then some (.panicked .fsImageNotFound)
  else if PassesMount bpb then searchEnding linked.findBuf (gaps 2).held bpb
  else some (.panicked .fatMountFailed)

def hexText (value : Nat) : List Byte := bytes "0x" ++ itoa (asInt (UInt32.ofNat value)) 16

def foundText (fsimg : Outputs) : List Byte :=
  bytes "[STAGE0] Found fs image at " ++
    (hexText fsimg.outAddr ++ (bytes ", size " ++ (hexText fsimg.outSize ++ bytes " bytes\n")))

def Ending.text : Ending → List Byte
  | .panicked e => bytes "[STAGE0] " ++ e.message ++ bytes "\n[STAGE0] KERNEL PANIC!"
  | .looping _ => []

def announced (multibootMagic : Nat) (module : Option MultibootModule) : List Byte :=
  if multibootMagic = 0x2BADB002 then (module.map fun mod => foundText mod.outputs).getD [] else []

def Linked.tables (linked : Linked) : List (Nat × Nat) :=
  [(linked.statics.gdt, 8 * gdtEntries), (linked.statics.gp, 6),
   (linked.statics.idt, 8 * idtEntries), (linked.statics.idtp, 6)]

def Linked.written (linked : Linked) : List (Nat × Nat) :=
  (vgaAddress, reachableBytes) :: (linked.stack, stackSize) :: linked.tables

structure Linked.Placed (linked : Linked) : Prop where
  tables : ∀ range ∈ linked.tables, kernelStart ≤ range.1 ∧ range.1 + range.2 ≤ 2 ^ 32
  stack : kernelStart ≤ linked.stack ∧ linked.stack + stackSize ≤ 2 ^ 32
  bpb : linked.stack ≤ linked.bpb ∧ linked.bpb + 90 ≤ linked.stack + stackSize
  findBuf : linked.stack ≤ linked.findBuf ∧ linked.findBuf + 4096 ≤ linked.stack + stackSize
  sector : kernelStart ≤ linked.sector
  sectorApart : ∀ range ∈ linked.written, Disjoint linked.sector 512 range.1 range.2
  emptyApart : ∀ range ∈ linked.written, Disjoint linked.emptyString 1 range.1 range.2

/-- Memory as the loader hands it over: the kernel's zeros are there, and what
is said of the modules lies off all that the kernel writes. -/
structure Loaded (linked : Linked) (mbInfo : Nat) (memory : Memory) : Prop where
  emptyString : readByte memory linked.emptyString = 0
  sector : SectorZero linked.sector memory
  info : ∀ range ∈ linked.written, Disjoint mbInfo 28 range.1 range.2
  modules : ∀ range ∈ linked.written, Disjoint (multibootInfo memory mbInfo).modsAddr
    (16 * (multibootInfo memory mbInfo).modsCount) range.1 range.2

/-- A stale boot sector that passes and leads to a search asks for clusters that
fit the buffer, at sectors within a word. -/
structure Searchable (linked : Linked) (bpb : Bpb) : Prop where
  cluster : bpb.sectorsPerCluster ≤ 8
  root : InWords (mountedFs 0 bpb) linked.sector linked.findBuf bpb.rootCluster
  zero : InWords (mountedFs 0 bpb) linked.sector linked.findBuf 0

/-- No Enter, Backspace or arrow while the kernel boots. -/
def Quiet (gaps : Nat → Gap) : Prop :=
  ∀ i, ∀ scancode ∈ (gaps i).scancodes, ¬ ActsOnScreen scancode

end Spec

section Memory

theorem on_stack_inside {stack address : Nat} (held memory : Memory)
    (fits : stack + stackSize ≤ 2 ^ 32) (lower : stack ≤ address)
    (upper : address < stack + stackSize) :
    readByte (onStack stack held memory) address = readByte held address := by
  have whole : u32 address = address := Nat.mod_eq_of_lt (by omega)
  unfold readByte onStack
  rw [whole, if_pos ⟨lower, upper⟩]

theorem on_stack_changes (stack : Nat) (held memory : Memory) :
    ChangesWithin memory (onStack stack held memory) stack stackSize := by
  intro address outside
  apply if_neg
  rintro ⟨lower, upper⟩
  apply outside (u32 address - stack) (by omega)
  rw [show stack + (u32 address - stack) = u32 address by omega]
  exact (Nat.mod_mod _ _).symm

theorem pointer_keeps (linked : Linked) {pointer : Nat} (limit base : Nat) (memory : Memory)
    (member : (pointer, 6) ∈ linked.tables) :
    KeepsOutside linked.tables memory (storePointer pointer limit base memory) :=
  changes_keeps (VectorDispatch.pointer_changes memory pointer limit base) member

theorem segments_keep (linked : Linked) (memory : Memory) (calls : List SegmentCall) :
    KeepsOutside linked.tables memory (run (setSegment linked.statics.gdt) memory calls) :=
  changes_keeps (Table.run_changes (gdt_gate_stored linked.statics.gdtFits) memory calls)
    (by simp [Linked.tables])

theorem gates_keep (linked : Linked) (memory : Memory) (calls : List GateCall) :
    KeepsOutside linked.tables memory (run (setGate linked.statics.idt) memory calls) :=
  changes_keeps (Table.run_changes (idt_gate_stored linked.statics.idtFits) memory calls)
    (by simp [Linked.tables])

theorem tables_keep (linked : Linked) (processor : Processor) :
    KeepsOutside linked.tables processor.memory
      (installTables linked.statics processor).memory := by
  have filled : KeepsOutside linked.tables processor.memory
      (gdtFill linked.statics processor.memory) :=
    keeps_trans (pointer_keeps linked _ _ _ (by simp [Linked.tables])) (segments_keep linked _ _)
  have pointed := pointer_keeps linked (8 * idtEntries - 1) linked.statics.idt
    (gdtFill linked.statics processor.memory)
    (show (linked.statics.idtp, 6) ∈ linked.tables by simp [Linked.tables])
  have cleared := gates_keep linked (storePointer linked.statics.idtp (8 * idtEntries - 1)
    linked.statics.idt (gdtFill linked.statics processor.memory)) clearCalls
  simp only [installTables, isrInstall, idtInstall, idtLoad, gdtInstall, gdtFlush]
  exact keeps_trans filled (keeps_trans pointed (keeps_trans cleared (gates_keep linked _ _)))

theorem keeps_more {few many : List (Nat × Nat)} {before after : Memory}
    (kept : KeepsOutside few before after) (all : ∀ range ∈ few, range ∈ many) :
    KeepsOutside many before after := by
  intro address outside
  exact kept address fun range member => outside range (all range member)

theorem kept_bytes {ranges : List (Nat × Nat)} {before after : Memory} {start count : Nat}
    (kept : KeepsOutside ranges before after)
    (apart : ∀ range ∈ ranges, Disjoint start count range.1 range.2) {address part : Nat}
    (lower : start ≤ address) (upper : address + part ≤ start + count) :
    readBytes after address part = readBytes before address part := by
  apply keeps_bytes kept
  intro i bound
  rw [show address + i = start + (address - start + i) by omega]
  exact outside_disjoint apart _ (by omega)

section Information

variable {linked : Linked} {mbInfo : Nat} {memory later : Memory}
  (loaded : Loaded linked mbInfo memory) (kept : KeepsOutside linked.written memory later)

include loaded kept

theorem info_kept : multibootInfo later mbInfo = multibootInfo memory mbInfo := by
  have word := fun offset (inside : offset + 4 ≤ 28) =>
    congrArg decodeLE (kept_bytes kept loaded.info (Nat.le_add_right mbInfo offset)
      (show mbInfo + offset + 4 ≤ mbInfo + 28 by omega))
  have flags := word 0 (by decide)
  have modsCount := word 20 (by decide)
  have modsAddr := word 24 (by decide)
  rw [Nat.add_zero] at flags
  simp only [multibootInfo, load32, flags, modsCount, modsAddr]

theorem module_kept {i : Nat} (listed : i < (multibootInfo memory mbInfo).modsCount) :
    moduleAt later (multibootInfo memory mbInfo).modsAddr i =
      moduleAt memory (multibootInfo memory mbInfo).modsAddr i := by
  have word := fun offset (inside : offset + 4 ≤ 16) =>
    congrArg decodeLE (kept_bytes kept loaded.modules
      (Nat.le_trans (Nat.le_add_right _ (16 * i)) (Nat.le_add_right _ offset))
      (show (multibootInfo memory mbInfo).modsAddr + 16 * i + offset + 4 ≤
        (multibootInfo memory mbInfo).modsAddr +
          16 * (multibootInfo memory mbInfo).modsCount by omega))
  have modStart := word 0 (by decide)
  have modEnd := word 4 (by decide)
  have string := word 8 (by decide)
  rw [Nat.add_zero] at modStart
  simp only [moduleAt, load32, modStart, modEnd, string]

theorem boot_module_kept : bootModule later mbInfo = bootModule memory mbInfo := by
  unfold bootModule
  rw [info_kept loaded kept]
  have same : (List.range (multibootInfo memory mbInfo).modsCount).map
      (moduleAt later (multibootInfo memory mbInfo).modsAddr) =
      (List.range (multibootInfo memory mbInfo).modsCount).map
        (moduleAt memory (multibootInfo memory mbInfo).modsAddr) := by
    apply List.map_congr_left
    intro i listed
    exact module_kept loaded kept (List.mem_range.mp listed)
  dsimp only
  rw [same]

end Information

end Memory

section Lookup

variable {memory : Memory} {name : Nat} (empty : readByte memory name = 0) (rounds : Nat)
  (outputs : Outputs)

include empty

/-- Every string contains the empty one, and `strstr` looks at none of it. -/
theorem find_module_any (mods left i : Nat) :
    findModuleFrom rounds memory mods name outputs left i =
      some ((((List.range' i left).map (moduleAt memory mods)).find?
        fun mod => mod.string ≠ 0).elim (0, outputs) fun mod => (1, mod.outputs)) := by
  induction left generalizing i with
  | zero => rfl
  | succ left ih =>
      rw [findModuleFrom, List.range'_succ, List.map_cons]
      by_cases null : (moduleAt memory mods i).string = 0
      · rw [if_pos null, ih, List.find?_cons_of_neg (by simpa using null)]
      · have found : StringSearch.strstr rounds memory (moduleAt memory mods i).string name =
            some (moduleAt memory mods i).string := if_pos empty
        rw [if_neg null, found, Option.bind_eq_bind, Option.bind_some, if_pos null,
          List.find?_cons_of_pos (by simpa using null)]
        rfl

theorem lookup_any (mbInfo : Nat) :
    multibootFindModule rounds memory mbInfo outputs name =
      some ((bootModule memory mbInfo).elim (0, outputs) fun mod => (1, mod.outputs)) := by
  unfold multibootFindModule bootModule
  dsimp only
  by_cases refused : mbInfo = 0 ∨ (multibootInfo memory mbInfo).flags &&& (1 <<< 3) = 0
  · rw [if_pos refused, if_pos (by tauto)]
    rfl
  · rw [if_neg refused]
    by_cases noModules : (multibootInfo memory mbInfo).modsCount = 0
    · rw [if_pos (by tauto), noModules]
      rfl
    · rw [if_neg (by tauto), find_module_any empty, List.range_eq_range']

end Lookup

section Stages

structure Reached (linked : Linked) (gaps : Nat → Gap) (memory : Memory) (text : List Byte)
    (keys : Keys) : Prop where
  display : Display keys.console
  kept : KeepsOutside linked.written memory keys.console.memory
  shown : Quiet gaps → ShowsText keys.console text

variable {linked : Linked} {gaps : Nat → Gap} {memory : Memory} {text : List Byte} {keys : Keys}

theorem written_display {before after : Memory}
    (changed : ChangesWithin before after vgaAddress reachableBytes) :
    KeepsOutside linked.written before after :=
  changes_keeps changed List.mem_cons_self

theorem written_stack {before after : Memory}
    (changed : ChangesWithin before after linked.stack stackSize) :
    KeepsOutside linked.written before after :=
  changes_keeps changed (List.mem_cons_of_mem _ List.mem_cons_self)

theorem screen_kept {ranges : List (Nat × Nat)} {before after : Memory}
    (kept : KeepsOutside ranges before after)
    (high : ∀ range ∈ ranges, kernelStart ≤ range.1 ∧ range.1 + range.2 ≤ 2 ^ 32)
    (row col : Nat) (rowBound : row < vgaHeight) (colBound : col < vgaWidth) :
    screenByte after row col = screenByte before row col := by
  apply kept
  intro range member i bound
  have place := high range member
  simp only [vgaHeight, vgaWidth] at rowBound colBound
  simp only [cellAddress, vgaAddress, vgaWidth, kernelStart, u32] at place ⊢
  omega

theorem reached_start (placed : linked.Placed) (processor : Processor) :
    Reached linked gaps memory [] (kmainStart linked processor memory) := by
  have cleared : ChangesWithin memory (bootConsole memory).memory vgaAddress reachableBytes := by
    have filled : (bootConsole memory).memory = blankCells memory 0 (vgaWidth * vgaHeight)
        (vgaChar 0 whiteOnBlack).toNat := boot_memory memory
    rw [filled]
    exact blank_changes memory 0 _ _ (by decide)
  have tables := tables_keep linked { processor with memory := (bootConsole memory).memory }
  unfold kmainStart bootKeys
  dsimp only at tables ⊢
  generalize installTables linked.statics
    { processor with memory := (bootConsole memory).memory } = installed at tables ⊢
  constructor
  · rfl
  · refine keeps_trans (written_display cleared) (keeps_more tables ?_)
    intro range member
    exact List.mem_cons_of_mem _ (List.mem_cons_of_mem _ member)
  · intro quiet
    exact shown_alike (boot_shows_nothing memory) rfl rfl rfl (screen_kept tables placed.tables)

theorem reached_gap (placed : linked.Placed) (reached : Reached linked gaps memory text keys)
    (i : Nat) : Reached linked gaps memory text (meanwhile linked (gaps i) keys) := by
  have served := keys_write keys reached.display (gaps i).scancodes
  have held := on_stack_changes linked.stack (gaps i).held
    (run keyStep keys (gaps i).scancodes).console.memory
  constructor
  · exact served.display
  · exact keeps_trans reached.kept
      (keeps_trans (written_display served.memory) (written_stack held))
  · intro quiet
    have unchanged : (run keyStep keys (gaps i).scancodes).console = keys.console := by
      have acting := key_steps_console (gaps i).scancodes keys
      rw [List.filter_eq_nil_iff.mpr (by simpa using quiet i)] at acting
      exact acting
    unfold meanwhile Keys.withMemory
    dsimp only
    rw [unchanged] at held ⊢
    have kept : KeepsOutside [(linked.stack, stackSize)] _ _ :=
      changes_keeps held List.mem_cons_self
    refine shown_alike (reached.shown quiet) rfl rfl rfl (screen_kept kept ?_)
    intro range member
    rw [List.mem_singleton.mp member]
    exact placed.stack

theorem reached_print (reached : Reached linked gaps memory text keys) (request : Request)
    (printable : Printable request) {more : List Byte}
    (stored : sprintfStored request.1 request.2 = some more) :
    ∃ later, printfKeys keys request.1 request.2 = some later ∧
      Reached linked gaps memory (text ++ more) later := by
  obtain ⟨same, stores, nonzero, prints⟩ := printf_text request printable
  obtain rfl : same = more := Option.some.inj (stores.symm.trans stored)
  have written := calls_write reached.display (same.map putOrNewline)
  refine ⟨_, by rw [printfKeys, prints]; rfl, ?_, ?_, ?_⟩
  · exact written.display
  · exact keeps_trans reached.kept (written_display written.memory)
  · intro quiet
    exact text_appended (reached.shown quiet) same nonzero

theorem panic_stores (e : Panic) :
    sprintfStored panicFormat [.string (some e.message)] = some (Ending.panicked e).text := by
  cases e <;> decide +kernel

theorem panic_printable (e : Panic) : Printable (panicFormat, [.string (some e.message)]) := by
  have kinds : requestedKinds false panicFormat = some [.string] := by decide +kernel
  refine ⟨⟨[.string], kinds, List.prefix_rfl⟩, ⟨by decide, trivial⟩, ?_⟩
  intro text stores
  rw [← Option.some.inj ((panic_stores e).symm.trans stores)]
  cases e <;> decide +kernel

theorem reached_panic (reached : Reached linked gaps memory text keys) (e : Panic) :
    ∃ later, panic e keys = some (.panicked e, later) ∧
      Reached linked gaps memory (text ++ (Ending.panicked e).text) later := by
  obtain ⟨later, printed, shown⟩ := reached_print reached _ (panic_printable e) (panic_stores e)
  refine ⟨later, ?_, shown⟩
  unfold panic
  rw [printed]
  rfl

theorem hex_nonzero (value : Nat) : ∀ c ∈ hexText value, c ≠ 0 := by
  have digitNonzero : ∀ c ∈ digits, c ≠ 0 := by decide +kernel
  obtain ⟨lower, upper⟩ := as_int_range (UInt32.ofNat value)
  intro c member
  cases List.mem_append.mp member with
  | inl leading =>
      have each : ∀ c ∈ bytes "0x", c ≠ 0 := by decide +kernel
      exact each c leading
  | inr shown =>
      cases itoa_symbols lower upper (by decide) (Nat.le_refl 16) c shown with
      | inl digit => exact digitNonzero c digit
      | inr minus =>
          rw [minus]
          decide

theorem found_stores (fsimg : Outputs) :
    sprintfStored foundFormat
      [.pointer (UInt32.ofNat fsimg.outAddr), .word (UInt32.ofNat fsimg.outSize)] =
      some (foundText fsimg) := rfl

theorem found_printable (fsimg : Outputs) : Printable (foundFormat,
    [.pointer (UInt32.ofNat fsimg.outAddr), .word (UInt32.ofNat fsimg.outSize)]) := by
  have kinds : requestedKinds false foundFormat = some [.pointer, .word] := by decide +kernel
  refine ⟨⟨[.pointer, .word], kinds, List.prefix_rfl⟩, ⟨by decide, by decide, trivial⟩, ?_⟩
  intro text stores
  rw [← Option.some.inj ((found_stores fsimg).symm.trans stores)]
  have front : ∀ c ∈ bytes "[STAGE0] Found fs image at ", c ≠ 0 := by decide +kernel
  have between : ∀ c ∈ bytes ", size ", c ≠ 0 := by decide +kernel
  have back : ∀ c ∈ bytes " bytes\n", c ≠ 0 := by decide +kernel
  intro c member
  simp only [foundText, List.mem_append] at member
  rcases member with head | address | middle | size | tail
  · exact front c head
  · exact hex_nonzero _ c address
  · exact between c middle
  · exact hex_nonzero _ c size
  · exact back c tail

/-- A result agrees with an ending, the text of which comes after what was printed. -/
def Comes (linked : Linked) (gaps : Nat → Gap) (memory : Memory) (text : List Byte)
    (result : Option (Ending × Keys)) : Option Ending → Prop
  | none => result = none
  | some ending => ∃ keys, result = some (ending, keys) ∧
      Reached linked gaps memory (text ++ ending.text) keys

theorem comes_panic (reached : Reached linked gaps memory text keys) (e : Panic) :
    Comes linked gaps memory text (panic e keys) (some (.panicked e)) := by
  obtain ⟨later, panics, shown⟩ := reached_panic reached e
  exact ⟨later, panics, shown⟩

section Held

variable (placed : linked.Placed) (i : Nat)

include placed

theorem read_held {address : Nat} (lower : linked.stack ≤ address)
    (upper : address < linked.stack + stackSize) :
    readByte (meanwhile linked (gaps i) keys).console.memory address =
      readByte (gaps i).held address :=
  on_stack_inside _ _ placed.stack.2 lower upper

/-- The mount looks at the bytes that were left at its buffer. -/
theorem bpb_held : bpbAt (meanwhile linked (gaps i) keys).console.memory linked.bpb =
    bpbAt (gaps i).held linked.bpb := by
  have inside := placed.bpb
  have field : ∀ offset width, offset + width ≤ 90 →
      readBytes (meanwhile linked (gaps i) keys).console.memory (linked.bpb + offset) width =
        readBytes (gaps i).held (linked.bpb + offset) width := by
    intro offset width bound
    apply read_bytes_congr
    intro j jBound
    exact read_held placed i (by omega) (by omega)
  have byte : ∀ offset, offset < 90 →
      readByte (meanwhile linked (gaps i) keys).console.memory (linked.bpb + offset) =
        readByte (gaps i).held (linked.bpb + offset) := by
    intro offset bound
    exact read_held placed i (by omega) (by omega)
  simp only [bpbAt, load8, load16, load32, field 11 2 (by decide), field 14 2 (by decide),
    field 36 4 (by decide), field 44 4 (by decide), byte 13 (by decide), byte 16 (by decide)]

theorem search_held (bpb : Bpb) (cluster : bpb.rootCluster < fatEoc → bpb.sectorsPerCluster ≤ 8) :
    searchEnding linked.findBuf (meanwhile linked (gaps i) keys).console.memory bpb =
      searchEnding linked.findBuf (gaps i).held bpb := by
  unfold searchEnding
  by_cases below : bpb.rootCluster < fatEoc
  · have whole : (mountedFs 0 bpb).bytesPerCluster ≤ 4096 := by
      have size : (mountedFs 0 bpb).bytesPerCluster = u32 (bpb.sectorsPerCluster * 512) := rfl
      have few := cluster below
      rw [size]
      unfold u32
      omega
    have same : ∀ j, j < 32 * (0 + (mountedFs 0 bpb).bytesPerCluster / 32) →
        readByte (meanwhile linked (gaps i) keys).console.memory (linked.findBuf + j) =
          readByte (gaps i).held (linked.findBuf + j) := by
      intro j bound
      have inside := placed.findBuf
      exact read_held placed i (by omega) (by omega)
    rw [scan_entries_congr stage1Name _ 0 same]
  · rw [if_pos (Nat.le_of_not_lt below), if_pos (Nat.le_of_not_lt below)]

end Held

section Storage

variable {ctx : MemdiskCtx} (small : ctx.numSectors < kernelStart) (placed : linked.Placed)
  (reached : Reached linked gaps memory text keys)
  (zero : SectorZero linked.sector memory) {rounds : Nat} (positive : 1 ≤ rounds)

theorem sector_kept (placed : linked.Placed) (reached : Reached linked gaps memory text keys)
    (zero : SectorZero linked.sector memory) : SectorZero linked.sector keys.console.memory := by
  intro i bound
  rw [reached.kept _ (outside_disjoint placed.sectorApart i bound)]
  exact zero i bound

include small placed reached zero positive

theorem comes_find (bpb : Bpb)
    (searchable : bpb.rootCluster < fatEoc → Searchable linked bpb) :
    Comes linked gaps memory text
      (kmainFind linked rounds (memdiskRead ctx) (mountedFs 0 bpb)
        (fat32OpenRoot (mountedFs 0 bpb)).2 keys)
      (searchEnding linked.findBuf keys.console.memory bpb) := by
  unfold kmainFind searchEnding
  by_cases below : bpb.rootCluster < fatEoc
  · rw [if_neg (Nat.not_le_of_lt below)]
    have fits := searchable below
    have buffer : kernelStart ≤ linked.findBuf := Nat.le_trans placed.stack.1 placed.findBuf.1
    have stale : FindsStale ctx (mountedFs 0 bpb)
        ⟨linked.bpb, linked.sector, linked.findBuf, linked.findBuf⟩
        (fat32OpenRoot (mountedFs 0 bpb)).2 stage1Name keys.console.memory :=
      finds_stale small placed.sector (sector_kept placed reached zero) buffer _ _ _ below
        fits.root fits.zero
    unfold FindsStale staleAnswer at stale
    dsimp only at stale
    cases scanned : scanEntries keys.console.memory linked.findBuf stage1Name
        ((mountedFs 0 bpb).bytesPerCluster / 32) 0 with
    | endOfDirectory =>
        rw [scanned] at stale
        rw [stale rounds positive]
        exact comes_panic reached .fileNotFound
    | found file =>
        rw [scanned] at stale
        rw [stale rounds positive]
        refine ⟨keys, rfl, ?_⟩
        rw [Ending.text, List.append_nil]
        exact reached
    | exhausted =>
        rw [scanned] at stale
        rw [stale rounds]
        rfl
  · rw [if_pos (Nat.le_of_not_lt below)]
    obtain ⟨rounds, rfl⟩ := Nat.exists_eq_succ_of_ne_zero (Nat.ne_zero_of_lt positive)
    have nothing : fat32Find (memdiskRead ctx) (mountedFs 0 bpb) linked.sector linked.findBuf
        (rounds + 1) (fat32OpenRoot (mountedFs 0 bpb)).2 stage1Name keys.console.memory =
        .ok (-1, none, keys.console.memory) := if_neg below
    rw [nothing]
    exact comes_panic reached .fileNotFound

theorem comes_mount (bpb : Bpb) (stale : bpbAt keys.console.memory linked.bpb = bpb)
    (searchable : PassesMount bpb → bpb.rootCluster < fatEoc → Searchable linked bpb) :
    Comes linked gaps memory text (kmainMount linked gaps rounds (memdiskRead ctx) keys)
      (if PassesMount bpb then searchEnding linked.findBuf (gaps 2).held bpb
      else some (.panicked .fatMountFailed)) := by
  have stack := placed.stack
  have inside := placed.bpb
  have whole : u32 linked.bpb = linked.bpb := Nat.mod_eq_of_lt (by omega)
  have mounts := mount_reads_stack ctx linked.bpb keys.console.memory (by omega)
  unfold kmainMount
  rw [mounts, stale]
  by_cases noTable : bpb.fatSize32 = 0
  · rw [if_pos noTable, if_neg fun passes : PassesMount bpb => passes.1 noTable]
    exact comes_panic reached .fatMountFailed
  · by_cases size : bpb.bytesPerSector = 512
    · have passes : PassesMount bpb := ⟨noTable, size⟩
      have fits := searchable passes
      rw [if_neg noTable, if_neg (not_not_intro size), if_pos passes,
        ← search_held placed 2 bpb fun below => (fits below).cluster]
      exact comes_find small placed (reached_gap placed reached 2) zero positive bpb fits
    · rw [if_neg noTable, if_pos size, if_neg fun passes : PassesMount bpb => size passes.2]
      exact comes_panic reached .fatMountFailed

end Storage

end Stages

theorem image_answered {linked : Linked} (gaps : Nat → Gap) {rounds mbInfo found : Nat}
    {fsimg : Outputs} (keys : Keys)
    (answered : multibootFindModule rounds keys.console.memory mbInfo ⟨0, 0⟩ linked.emptyString =
      some (found, fsimg)) :
    (do
      let (found, fsimg) ← multibootFindModule rounds keys.console.memory mbInfo ⟨0, 0⟩
        linked.emptyString
      kmainImage linked gaps rounds found fsimg keys) =
      kmainImage linked gaps rounds found fsimg keys := by
  rw [answered]
  rfl

section Boot

variable {linked : Linked} (placed : linked.Placed) (processor : Processor) (gaps : Nat → Gap)
  {rounds : Nat} (positive : 1 ≤ rounds) (multibootMagic mbInfo : Nat) (memory : Memory)
  (loaded : Loaded linked mbInfo memory)
  (small : ∀ mod, bootModule memory mbInfo = some mod → mod.outputs.outSize < 2 ^ 30)
  (searchable : PassesMount (bpbAt (gaps 1).held linked.bpb) →
    (bpbAt (gaps 1).held linked.bpb).rootCluster < fatEoc →
    Searchable linked (bpbAt (gaps 1).held linked.bpb))

include placed positive loaded small searchable

theorem kmain_comes :
    Comes linked gaps memory (announced multibootMagic (bootModule memory mbInfo))
      (kmain linked processor gaps rounds multibootMagic mbInfo memory)
      (bootEnding linked gaps multibootMagic (bootModule memory mbInfo)) := by
  have started : Reached linked gaps memory []
      (meanwhile linked (gaps 0) (kmainStart linked processor memory)) :=
    reached_gap placed (reached_start placed processor) 0
  unfold kmain bootEnding announced
  generalize meanwhile linked (gaps 0) (kmainStart linked processor memory) = keys at started ⊢
  have empty : readByte keys.console.memory linked.emptyString = 0 := by
    have apart : Outside linked.written linked.emptyString :=
      outside_disjoint placed.emptyApart 0 (by decide)
    rw [started.kept _ apart]
    exact loaded.emptyString
  have looked := lookup_any empty rounds ⟨0, 0⟩ mbInfo
  rw [boot_module_kept loaded started.kept] at looked
  by_cases magic : multibootMagic = 0x2BADB002
  · rw [if_pos magic, if_neg (not_not_intro magic), if_neg (not_not_intro magic)]
    cases named : bootModule memory mbInfo with
    | none =>
        rw [named] at looked
        rw [image_answered gaps keys looked, kmainImage, if_pos rfl, if_pos Option.isNone_none]
        exact comes_panic started .fsImageNotFound
    | some mod =>
        rw [named] at looked
        have image := small mod named
        have sectors : (fsUseMemdisk mod.outputs.outAddr mod.outputs.outSize).numSectors <
            kernelStart := by
          unfold fsUseMemdisk kernelStart
          dsimp only
          omega
        obtain ⟨later, printed, found⟩ :=
          reached_print started _ (found_printable mod.outputs) (found_stores mod.outputs)
        have mounted := comes_mount sectors placed (reached_gap placed found 1) loaded.sector
          positive _ (bpb_held placed 1) searchable
        rw [List.nil_append] at mounted
        rw [image_answered gaps keys looked, kmainImage, if_neg Nat.one_ne_zero, printed,
          if_neg (show ¬ (some mod).isNone = true from Bool.false_ne_true), Option.bind_eq_bind,
          Option.bind_some, Option.map_some, Option.getD_some]
        exact mounted
  · rw [if_neg magic, if_pos magic, if_pos magic]
    exact comes_panic started .multibootMagicInvalid

/-- How far the kernel gets, and what the screen shows there: the messages on
its way, as long as only keys without an effect on the screen are pressed. -/
structure Boots (linked : Linked) (gaps : Nat → Gap) (multibootMagic : Nat)
    (module : Option MultibootModule) (result : Option (Ending × Keys)) : Prop where
  ends : result.map Prod.fst = bootEnding linked gaps multibootMagic module
  shows : Quiet gaps → ∀ ending keys, result = some (ending, keys) →
    ShowsLines keys.console
      (layout 79 breaksLine (announced multibootMagic module ++ ending.text))

/-- Whatever keys are pressed and whatever the image holds. -/
theorem kmain_boots : Boots linked gaps multibootMagic (bootModule memory mbInfo)
    (kmain linked processor gaps rounds multibootMagic mbInfo memory) := by
  have comes := kmain_comes placed processor gaps positive multibootMagic mbInfo memory loaded
    small searchable
  generalize kmain linked processor gaps rounds multibootMagic mbInfo memory = result at comes ⊢
  cases expected : bootEnding linked gaps multibootMagic (bootModule memory mbInfo) with
  | none =>
      rw [expected] at comes
      have stuck : result = none := comes
      rw [stuck]
      exact ⟨expected.symm, fun _ _ _ impossible => nomatch impossible⟩
  | some ending =>
      rw [expected] at comes
      obtain ⟨last, ended, reached⟩ := comes
      rw [ended]
      refine ⟨expected.symm, ?_⟩
      intro quiet other keys same
      obtain ⟨rfl, rfl⟩ := Prod.mk.inj (Option.some.inj same)
      exact shown_layout (reached.shown quiet)

end Boot

section Sample

theorem separate_disjoint {ranges : List (Nat × Nat)} {start count : Nat}
    (separate : ∀ range ∈ ranges, start + count ≤ 2 ^ 32 ∧ range.1 + range.2 ≤ 2 ^ 32 ∧
      (start + count ≤ range.1 ∨ range.1 + range.2 ≤ start)) :
    ∀ range ∈ ranges, Disjoint start count range.1 range.2 := by
  intro range member
  obtain ⟨fits, rangeFits, apart⟩ := separate range member
  exact disjoint_of_separate fits rangeFits apart

def sampleLinked : Linked where
  statics := VectorDispatch.sampleStatics
  emptyString := 0x206000
  sector := 0x207000
  stack := 0x208000
  bpb := 0x20B000
  findBuf := 0x209000

theorem sample_placed : sampleLinked.Placed where
  tables := by decide
  stack := by decide
  bpb := by decide
  findBuf := by decide
  sector := by decide
  sectorApart := separate_disjoint (by decide)
  emptyApart := separate_disjoint (by decide)

def sampleGaps : Nat → Gap := fun _ => ⟨[0x1E], fun _ => 0⟩

theorem sample_loaded : Loaded sampleLinked 4096 bootMemory where
  emptyString := by decide
  sector := by
    intro i bound
    have whole : u32 (0x207000 + i) = 0x207000 + i := Nat.mod_eq_of_lt (by omega)
    have behind : [98].length ≤ 0x207000 + i - 12288 := by
      simp only [List.length_singleton]
      omega
    change bootMemory (u32 (0x207000 + i)) = 0
    rw [whole, bootMemory, if_neg (by omega), if_neg (by omega)]
    exact List.getD_eq_default _ _ behind
  info := separate_disjoint (by decide)
  modules := by
    have modsAddr : (multibootInfo bootMemory 4096).modsAddr = 4124 := by decide +kernel
    have modsCount : (multibootInfo bootMemory 4096).modsCount = 2 := by decide +kernel
    rw [modsAddr, modsCount]
    exact separate_disjoint (by decide)

theorem sample_small (mod : MultibootModule) (found : bootModule bootMemory 4096 = some mod) :
    mod.outputs.outSize < 2 ^ 30 := by
  have outputs : (bootModule bootMemory 4096).map MultibootModule.outputs =
      some ⟨0x30000, 0x20000⟩ := by decide +kernel
  rw [found] at outputs
  rw [Option.some.inj outputs]
  decide

theorem zero_stack_refused :
    ¬ PassesMount (bpbAt (sampleGaps 1).held sampleLinked.bpb) := by decide +kernel

theorem kmain_boots_sample : Boots sampleLinked sampleGaps 0x2BADB002 (bootModule bootMemory 4096)
    (kmain sampleLinked VectorDispatch.resetProcessor sampleGaps 1 0x2BADB002 4096 bootMemory) :=
  kmain_boots sample_placed VectorDispatch.resetProcessor sampleGaps (Nat.le_refl 1) 0x2BADB002
    4096 bootMemory sample_loaded sample_small fun passes => absurd passes zero_stack_refused

end Sample

end LumenOS.KernelBoot
