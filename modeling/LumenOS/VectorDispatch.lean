import LumenOS.DescriptorTables

/-!
# From an interrupt vector to the code it runs

The processor reads the gate of a vector through the register `lidt` loaded,
then the code segment of the gate's selector through the one `lgdt` loaded,
both from memory at the moment of the interrupt. Once `kmain` has installed the
tables, and for as long as their bytes stay, every vector with a stub leads to
the first instruction of that stub and every other vector to nothing.
-/

namespace LumenOS.VectorDispatch

open LumenOS.ByteMemory LumenOS.StepRuns LumenOS.RecordTable LumenOS.InterruptStub
open LumenOS.DescriptorTables

set_option autoImplicit false

def entryBase (entry : GdtEntry) : Nat :=
  entry.baseLow + 2 ^ 16 * entry.baseMiddle + 2 ^ 24 * entry.baseHigh

def entryLimit (entry : GdtEntry) : Nat :=
  entry.limitLow + 2 ^ 16 * (entry.granularity % 2 ^ 4)

/-- The limit counts pages where the granularity bit is set. -/
def lastOffset (entry : GdtEntry) : Nat :=
  if entry.granularity.testBit 7 then entryLimit entry * 2 ^ 12 + (2 ^ 12 - 1)
  else entryLimit entry

def entryPrivilege (entry : GdtEntry) : Nat := entry.access / 2 ^ 5 % 4

/-- Present, not a system segment, executable. -/
def IsCode (entry : GdtEntry) : Prop :=
  entry.access.testBit 7 ∧ entry.access.testBit 4 ∧ entry.access.testBit 3

/-- Present, not a system segment, not executable, writable. -/
def IsData (entry : GdtEntry) : Prop :=
  entry.access.testBit 7 ∧ entry.access.testBit 4 ∧ ¬ entry.access.testBit 3 ∧
    entry.access.testBit 1

instance (entry : GdtEntry) : Decidable (IsCode entry) := inferInstanceAs (Decidable (_ ∧ _))
instance (entry : GdtEntry) : Decidable (IsData entry) := inferInstanceAs (Decidable (_ ∧ _))

/-- The descriptor of a selector: not the null one, not in a local table, and
inside the table's limit. -/
def segment (memory : Memory) (gdtr : TableRegister) (selector : Nat) : Option GdtEntry :=
  if selector / 8 = 0 ∨ selector.testBit 2 then none
  else if gdtr.limit < 8 * (selector / 8) + 7 then none
  else some (gdtEntryOf (readBytes memory (gdtr.base + 8 * (selector / 8)) 8))

structure Target where
  address : Nat
  privilege : Nat
  masked : Bool
  deriving DecidableEq

def gateOffset (entry : IdtEntry) : Nat := entry.baseLo + 2 ^ 16 * entry.baseHi

/-- A present interrupt gate masks interrupts on entry, a trap gate does not;
anything else faults. -/
def vectorTarget (memory : Memory) (gdtr idtr : TableRegister) (vector : Nat) : Option Target :=
  if idtr.limit < 8 * vector + 7 then none
  else
    let gate := idtEntryOf (readBytes memory (idtr.base + 8 * vector) 8)
    if gate.flags.testBit 7 ∧ (gate.flags % 2 ^ 5 = 0x0E ∨ gate.flags % 2 ^ 5 = 0x0F) then
      (segment memory gdtr gate.sel).bind fun code =>
        if IsCode code ∧ gateOffset gate ≤ lastOffset code then
          some
            { address := u32 (entryBase code + gateOffset gate)
              privilege := entryPrivilege code
              masked := decide (gate.flags % 2 ^ 5 = 0x0E) }
        else none
    else none

/-- The bytes of both tables are the same. -/
structure TablesKept (statics : Statics) (before after : Memory) : Prop where
  gdt : ∀ i, i < 8 * gdtEntries →
    readByte after (statics.gdt + i) = readByte before (statics.gdt + i)
  idt : ∀ i, i < 8 * idtEntries →
    readByte after (statics.idt + i) = readByte before (statics.idt + i)

section Pointers

variable (memory : Memory) (pointer limit base : Nat)

theorem pointer_register (limitBound : limit < 2 ^ 16) (baseBound : base < 2 ^ 32) :
    tableRegister (storePointer pointer limit base memory) pointer = ⟨limit, base⟩ := by
  have apart : Disjoint pointer 2 (pointer + 2) 4 := by
    intro i j iBound jBound
    unfold u32
    omega
  have low : load16 (storePointer pointer limit base memory) pointer = limit := by
    unfold storePointer store32
    rw [load16, read_write_bytes_disjoint _ _ _ _ _ (by simpa using apart)]
    change load16 (store16 memory pointer limit) pointer = limit
    rw [load16_store_same]
    exact Nat.mod_eq_of_lt limitBound
  have high : load32 (storePointer pointer limit base memory) (pointer + 2) = base := by
    unfold storePointer
    rw [load_store_same]
    exact Nat.mod_eq_of_lt baseBound
  rw [tableRegister, low, high]

theorem pointer_changes :
    ChangesWithin memory (storePointer pointer limit base memory) pointer 6 := by
  have first : ChangesWithin memory (store16 memory pointer limit) pointer 6 := by
    apply changes_wider (changes_written memory pointer (encodeLE 2 limit))
    · exact Nat.le_refl pointer
    · simp
  have second := changes_written (store16 memory pointer limit) (pointer + 2) (encodeLE 4 base)
  apply changes_trans first
  apply changes_wider second
  · omega
  · simp

theorem register_kept {before after : Memory} {start count : Nat}
    (changed : ChangesWithin before after start count) (apart : Disjoint pointer 6 start count) :
    tableRegister after pointer = tableRegister before pointer := by
  have low : readBytes after pointer 2 = readBytes before pointer 2 :=
    changes_keep changed fun i j iBound => apart i j (by omega)
  have high : readBytes after (pointer + 2) 4 = readBytes before (pointer + 2) 4 := by
    apply changes_keep changed
    intro i j iBound jBound
    rw [Nat.add_assoc]
    exact apart (2 + i) j (by omega) jBound
  rw [tableRegister, tableRegister, load16, load32, low, high]
  rfl

end Pointers

section Installed

variable (statics : Statics) (processor : Processor)

def filledGdt : Fin gdtEntries → GdtEntry
  | 0 => gdtEntry 0 0 0 0
  | 1 => gdtEntry 0 0xFFFFFFFF 0x9A 0xCF
  | 2 => gdtEntry 0 0xFFFFFFFF 0x92 0xCF

theorem segment_called : ∀ i : Fin gdtEntries, i ∈ segmentCalls.map SegmentCall.num := by
  decide

theorem gdt_filled (memory : Memory) :
    (gdtTable statics.gdt statics.gdtFits).contents (gdtFill statics memory) = filledGdt := by
  unfold gdtFill
  rw [Table.run_contents (gdt_gate_stored statics.gdtFits)]
  funext i
  rw [updates_agreeing SegmentCall.num _ filledGdt]
  · exact if_pos (segment_called i)
  · simp [segmentCalls, filledGdt]

theorem gdt_fill_changes (memory : Memory) :
    ChangesWithin (storePointer statics.gp (8 * gdtEntries - 1) statics.gdt memory)
      (gdtFill statics memory) statics.gdt (8 * gdtEntries) :=
  Table.run_changes (gdt_gate_stored statics.gdtFits) _ segmentCalls

theorem gdt_base_bound : statics.gdt < 2 ^ 32 := by
  have fits := statics.gdtFits
  unfold gdtEntries at fits
  omega

theorem idt_base_bound : statics.idt < 2 ^ 32 := by
  have fits := statics.idtFits
  unfold idtEntries at fits
  omega

/-- The memory of `idt_install` once `idtp` is stored. -/
def pointedMemory : Memory :=
  storePointer statics.idtp (8 * idtEntries - 1) statics.idt (gdtFill statics processor.memory)

theorem installed_memory :
    (installTables statics processor).memory =
      run (setGate statics.idt) (run (setGate statics.idt) (pointedMemory statics processor)
        clearCalls) (installCalls statics) := by
  simp only [installTables, isrInstall, idtInstall, idtLoad, gdtInstall, gdtFlush, pointedMemory]

theorem installed_gdtr :
    (installTables statics processor).gdtr = ⟨8 * gdtEntries - 1, statics.gdt⟩ := by
  change tableRegister (gdtFill statics processor.memory) statics.gp = _
  rw [register_kept statics.gp (gdt_fill_changes statics processor.memory) statics.gpApart]
  exact pointer_register _ _ _ _ (by decide) (gdt_base_bound statics)

theorem gate_calls_change (memory : Memory) (calls : List GateCall) :
    ChangesWithin memory (run (setGate statics.idt) memory calls) statics.idt (8 * idtEntries) :=
  Table.run_changes (idt_gate_stored statics.idtFits) memory calls

theorem installed_idtr :
    (installTables statics processor).idtr = ⟨8 * idtEntries - 1, statics.idt⟩ := by
  have loaded : (installTables statics processor).idtr =
      tableRegister (run (setGate statics.idt) (pointedMemory statics processor) clearCalls)
        statics.idtp := by
    simp only [installTables, isrInstall, idtInstall, idtLoad, gdtInstall, gdtFlush, pointedMemory]
  rw [loaded, register_kept statics.idtp (gate_calls_change statics _ _) statics.idtpApart]
  exact pointer_register _ _ _ _ (by decide) (idt_base_bound statics)

def installedGate (vector : Fin idtEntries) : IdtEntry :=
  if vector ∈ installedVectors then idtEntry (statics.isr vector) 0x08 0x8E else idtEntry 0 0 0

theorem clear_calls_nums : clearCalls.map GateCall.num = List.finRange idtEntries := by
  simp [clearCalls, Function.comp_def]

theorem install_calls_nums : (installCalls statics).map GateCall.num = installedVectors := by
  simp [installCalls, Function.comp_def]

theorem installed_idt :
    (idtTable statics.idt statics.idtFits).contents (installTables statics processor).memory =
      installedGate statics := by
  have stored := idt_gate_stored statics.idtFits
  rw [installed_memory, Table.run_contents stored, Table.run_contents stored]
  funext vector
  rw [updates_agreeing GateCall.num _ (fun vector => idtEntry (statics.isr vector) 0x08 0x8E),
    updates_agreeing GateCall.num _ (fun _ => idtEntry 0 0 0), clear_calls_nums,
    install_calls_nums, if_pos (List.mem_finRange vector)]
  · rfl
  · intro call member
    obtain ⟨i, _, rfl⟩ := List.mem_map.mp member
    rfl
  · intro call member
    obtain ⟨i, _, rfl⟩ := List.mem_map.mp member
    rfl

theorem installed_gdt :
    (gdtTable statics.gdt statics.gdtFits).contents (installTables statics processor).memory =
      filledGdt := by
  have pointer := pointer_changes (gdtFill statics processor.memory) statics.idtp
    (8 * idtEntries - 1) statics.idt
  have clear := gate_calls_change statics (pointedMemory statics processor) clearCalls
  have install := gate_calls_change statics
    (run (setGate statics.idt) (pointedMemory statics processor) clearCalls) (installCalls statics)
  rw [← gdt_filled statics processor.memory, installed_memory,
    Table.contents_kept install statics.tablesApart, Table.contents_kept clear statics.tablesApart]
  exact Table.contents_kept pointer statics.gdtApart

theorem installed_vectors_iff (vector : Fin idtEntries) :
    vector ∈ installedVectors ↔ vector.val ≤ 47 ∨ vector.val = 128 := by
  rw [installedVectors, List.mem_append, List.mem_map, List.mem_singleton]
  constructor
  · intro member
    cases member with
    | inl low =>
        obtain ⟨i, _, rfl⟩ := low
        exact Or.inl (Nat.le_of_lt_succ i.isLt)
    | inr last => exact Or.inr (congrArg Fin.val last)
  · intro named
    cases named with
    | inl low => exact Or.inl ⟨⟨vector.val, by omega⟩, List.mem_finRange _, rfl⟩
    | inr last => exact Or.inr (Fin.ext last)

theorem stub_installed (vector : Fin idtEntries) :
    (stub vector.val).isSome = true ↔ vector ∈ installedVectors := by
  rw [installed_vectors_iff, ← stub_exists_iff, Option.isSome_iff_exists]

theorem gate_offset_installed (vector : Nat) :
    gateOffset (idtEntry (statics.isr vector) 0x08 0x8E) = statics.isr vector := by
  have bound := statics.isrBound vector
  unfold gateOffset idtEntry
  dsimp only
  omega

theorem code_whole : lastOffset (filledGdt 1) = 2 ^ 32 - 1 := by decide

theorem gate_target (vector : Nat) :
    (if IsCode (filledGdt 1) ∧
        gateOffset (idtEntry (statics.isr vector) 0x08 0x8E) ≤ lastOffset (filledGdt 1) then
      some
        { address := u32 (entryBase (filledGdt 1) +
            gateOffset (idtEntry (statics.isr vector) 0x08 0x8E))
          privilege := entryPrivilege (filledGdt 1)
          masked := decide ((idtEntry (statics.isr vector) 0x08 0x8E).flags % 2 ^ 5 = 0x0E) }
      else none) = some (⟨statics.isr vector, 0, true⟩ : Target) := by
  have bound := statics.isrBound vector
  have base : entryBase (filledGdt 1) = 0 := by decide
  have whole : u32 (0 + statics.isr vector) = statics.isr vector := by
    rw [Nat.zero_add]
    exact Nat.mod_eq_of_lt bound
  have flags : (idtEntry (statics.isr vector) 0x08 0x8E).flags = 0x8E := rfl
  have privilege : entryPrivilege (filledGdt 1) = 0 := by decide
  rw [gate_offset_installed, code_whole, if_pos ⟨by decide, by omega⟩, base, whole, flags,
    privilege]
  rfl

section Later

variable {statics processor} {later : Memory}
  (kept : TablesKept statics (installTables statics processor).memory later)

include kept

theorem later_gate (vector : Fin idtEntries) :
    idtEntryOf (readBytes later (statics.idt + 8 * vector.val) 8) =
      installedGate statics vector := by
  have same : (idtTable statics.idt statics.idtFits).contents later =
      (idtTable statics.idt statics.idtFits).contents (installTables statics processor).memory :=
    Table.contents_congr kept.idt
  rw [installed_idt] at same
  exact congrFun same vector

theorem later_segment (i : Fin gdtEntries) (positive : 0 < i.val) :
    segment later (installTables statics processor).gdtr (8 * i.val) = some (filledGdt i) := by
  have same : (gdtTable statics.gdt statics.gdtFits).contents later =
      (gdtTable statics.gdt statics.gdtFits).contents (installTables statics processor).memory :=
    Table.contents_congr kept.gdt
  rw [installed_gdt] at same
  have entry : gdtEntryOf (readBytes later (statics.gdt + 8 * i.val) 8) = filledGdt i :=
    congrFun same i
  have index : 8 * i.val / 8 = i.val := Nat.mul_div_cancel_left i.val (by decide)
  have global : ∀ i : Fin gdtEntries, (8 * i.val).testBit 2 = false := by decide
  have inside : ¬ 8 * gdtEntries - 1 < 8 * i.val + 7 := by
    have bound := i.isLt
    omega
  rw [installed_gdtr, segment, index, global i, if_neg (by simpa using positive.ne'),
    if_neg inside, entry]

theorem installed_target (vector : Nat) (bound : vector < idtEntries) :
    vectorTarget later (installTables statics processor).gdtr
        (installTables statics processor).idtr vector =
      if (stub vector).isSome then some ⟨statics.isr vector, 0, true⟩ else none := by
  have code : segment later (installTables statics processor).gdtr 0x08 = some (filledGdt 1) :=
    later_segment kept 1 (by decide)
  have gate := later_gate kept ⟨vector, bound⟩
  have inside : ¬ 8 * idtEntries - 1 < 8 * vector + 7 := by omega
  have installed := stub_installed ⟨vector, bound⟩
  rw [vectorTarget, installed_idtr]
  dsimp only at gate installed ⊢
  rw [if_neg inside, gate, installedGate]
  by_cases member : (⟨vector, bound⟩ : Fin idtEntries) ∈ installedVectors
  · have flags : (idtEntry (statics.isr vector) 0x08 0x8E).flags = 0x8E := rfl
    have selector : (idtEntry (statics.isr vector) 0x08 0x8E).sel = 0x08 := rfl
    rw [if_pos member, if_pos (installed.mpr member)]
    dsimp only
    rw [flags, if_pos ⟨by decide, Or.inl (by decide)⟩, selector, code]
    exact gate_target statics vector
  · rw [if_neg member, if_neg fun found => member (installed.mp found)]
    rfl

end Later

end Installed

/-- What an interrupt and an ordinary access find in the tables: the stub of
each vector that has one, entered in ring 0 with interrupts masked, no target
for the other vectors, and segments that cover the whole address space. -/
structure Dispatches (statics : Statics) (processor : Processor) (memory : Memory) : Prop where
  vectors : ∀ vector, vector < idtEntries →
    vectorTarget memory processor.gdtr processor.idtr vector =
      if (stub vector).isSome then some ⟨statics.isr vector, 0, true⟩ else none
  code : ∃ entry, segment memory processor.gdtr processor.cs = some entry ∧ IsCode entry ∧
    entryBase entry = 0 ∧ lastOffset entry = 2 ^ 32 - 1
  data : ∀ selector ∈ [processor.ds, processor.es, processor.fs, processor.gs, processor.ss],
    ∃ entry, segment memory processor.gdtr selector = some entry ∧ IsData entry ∧
      entryBase entry = 0 ∧ lastOffset entry = 2 ^ 32 - 1

def sampleStatics : Statics where
  gdt := 0x203000
  gp := 0x203018
  idt := 0x204000
  idtp := 0x204800
  isr := fun vector => u32 (0x205000 + 16 * vector)
  gdtFits := by decide
  idtFits := by decide
  isrBound := fun _ => Nat.mod_lt _ (by decide)
  gpApart := disjoint_of_separate (by decide) (by decide) (by decide)
  idtpApart := disjoint_of_separate (by decide) (by decide) (by decide)
  tablesApart := disjoint_of_separate (by decide) (by decide) (by decide)
  gdtApart := disjoint_of_separate (by decide) (by decide) (by decide)

def resetProcessor : Processor where
  memory := fun _ => 0
  gdtr := ⟨0, 0⟩
  idtr := ⟨0, 0⟩
  cs := 0
  ds := 0
  es := 0
  fs := 0
  gs := 0
  ss := 0
  portWrites := []

structure Typed (call : SegmentCall) : Prop where
  base : call.base < 2 ^ 32
  limit : call.limit < 2 ^ 32
  access : call.access < 2 ^ 8
  granularity : call.granularity < 2 ^ 8

/-- The processor reads the arguments of a call back from the entry: the base
and the access byte whole, of the limit the low twenty bits, of the last
argument the four flags. -/
structure Describes (entry : GdtEntry) (call : SegmentCall) : Prop where
  base : entryBase entry = call.base
  limit : entryLimit entry = call.limit % 2 ^ 20
  access : entry.access = call.access
  granularity : entry.granularity / 2 ^ 4 = call.granularity / 2 ^ 4

theorem entry_describes (call : SegmentCall) (typed : Typed call) :
    Describes (gdtEntry call.base call.limit call.access call.granularity) call := by
  obtain ⟨base, limit, access, granularity⟩ := typed
  constructor
  · unfold entryBase gdtEntry
    dsimp only
    omega
  · unfold entryLimit gdtEntry
    dsimp only
    omega
  · exact Nat.mod_eq_of_lt access
  · unfold gdtEntry
    dsimp only
    omega

/-- The table after some calls of `gdt_set_gate`: an entry describes the last
call for it, or is what it was, and no byte outside the table changes. -/
structure DescribesLast (table : Table GdtEntry) (before after : Memory)
    (last : Fin table.entries → Option SegmentCall) : Prop where
  frame : ChangesWithin before after table.base (table.width * table.entries)
  described : ∀ i call, last i = some call → Describes (table.record after i) call
  kept : ∀ i, last i = none → table.record after i = table.record before i

def lastCall (calls : List SegmentCall) (i : Fin gdtEntries) : Option SegmentCall :=
  lastWhere (fun call => decide (call.num = i)) calls

theorem segment_recorded (gdt : Nat) (fits : gdt + 8 * gdtEntries ≤ 2 ^ 32) (memory : Memory)
    (calls : List SegmentCall) (i : Fin gdtEntries) :
    (gdtTable gdt fits).record (run (setSegment gdt) memory calls) i =
      ((lastCall calls i).map fun call =>
        gdtEntry call.base call.limit call.access call.granularity).getD
        ((gdtTable gdt fits).record memory i) := by
  have final := congrFun (Table.run_contents (gdt_gate_stored fits) memory calls) i
  rw [updates_last] at final
  exact final

theorem segments_describe_last_call (gdt : Nat) (fits : gdt + 8 * gdtEntries ≤ 2 ^ 32)
    (memory : Memory) (calls : List SegmentCall) (typed : ∀ call ∈ calls, Typed call) :
    DescribesLast (gdtTable gdt fits) memory (run (setSegment gdt) memory calls)
      (lastCall calls) := by
  constructor
  · exact Table.run_changes (gdt_gate_stored fits) memory calls
  · intro i call last
    have member : call ∈ calls := List.mem_of_mem_filter (List.mem_of_getLast? last)
    rw [segment_recorded, last]
    exact entry_describes call (typed call member)
  · intro i last
    rw [segment_recorded, last]
    rfl

def sampleCalls : List SegmentCall :=
  [⟨⟨1, by decide⟩, 0x12345678, 0xFFFFF, 0x9A, 0xCF⟩,
    ⟨⟨1, by decide⟩, 0x2000, 0xFFFFFFFF, 0x92, 0x40⟩]

theorem sample_calls_typed : ∀ call ∈ sampleCalls, Typed call := by
  intro call member
  simp only [sampleCalls, List.mem_cons, List.not_mem_nil, or_false] at member
  rcases member with rfl | rfl
  · constructor <;> decide
  · constructor <;> decide

theorem segments_describe_sample :
    DescribesLast (gdtTable 0x1000 (by decide)) (fun _ => 0)
      (run (setSegment 0x1000) (fun _ => 0) sampleCalls) (lastCall sampleCalls) :=
  segments_describe_last_call 0x1000 (by decide) (fun _ => 0) sampleCalls sample_calls_typed

end LumenOS.VectorDispatch
