import LumenOS.RecordTable
import LumenOS.InterruptStub

/-!
# The descriptor tables of `gdt.c` and `idt.c`

Both tables are arrays of packed eight-byte structures at static addresses,
filled field by field in the order the source assigns the members. `gp` and
`idtp` are the packed limit and base that `lgdt` and `lidt` load. The stubs of
`isr.s` are known by their addresses.
-/

namespace LumenOS.DescriptorTables

open LumenOS.ByteMemory LumenOS.StepRuns LumenOS.RecordTable LumenOS.InterruptStub

set_option autoImplicit false

abbrev gdtEntries : Nat := 3
abbrev idtEntries : Nat := 256

/-- `num` is an `int`, `base` and `limit` 32 bits wide, the others eight. -/
def gdtSetGate (gdt num base limit access granularity : Nat) (memory : Memory) : Memory :=
  let entry := gdt + 8 * num
  let memory := store16 memory (entry + 2) (base &&& 0xFFFF)
  let memory := writeByte memory (entry + 4) (UInt8.ofNat ((base >>> 16) &&& 0xFF))
  let memory := writeByte memory (entry + 7) (UInt8.ofNat ((base >>> 24) &&& 0xFF))
  let memory := store16 memory entry (limit &&& 0xFFFF)
  let memory := writeByte memory (entry + 6) (UInt8.ofNat ((limit >>> 16) &&& 0x0F))
  let memory := writeByte memory (entry + 6)
    (readByte memory (entry + 6) ||| UInt8.ofNat (granularity &&& 0xF0))
  writeByte memory (entry + 5) (UInt8.ofNat access)

/-- `num` and `flags` are eight bits wide, `sel` sixteen, `base` 32. -/
def idtSetGate (idt num base sel flags : Nat) (memory : Memory) : Memory :=
  let entry := idt + 8 * u8 num
  let memory := store16 memory entry (base &&& 0xFFFF)
  let memory := store16 memory (entry + 6) ((base >>> 16) &&& 0xFFFF)
  let memory := store16 memory (entry + 2) sel
  let memory := writeByte memory (entry + 4) 0
  writeByte memory (entry + 5) (UInt8.ofNat flags)

def pic1Command : Nat := 0x20
def pic1Data : Nat := 0x21
def pic2Command : Nat := 0xA0
def pic2Data : Nat := 0xA1

/-- The port writes of `isr_pic_remap`, in order. -/
def isrPicRemap : List (Nat × Byte) :=
  [(pic1Command, 0x11), (pic2Command, 0x11), (pic1Data, 0x20), (pic2Data, 0x28),
   (pic1Data, 0x04), (pic2Data, 0x02), (pic1Data, 0x01), (pic2Data, 0x01),
   (pic1Data, 0xFF), (pic2Data, 0xFF), (pic1Data, 0b11111101)]

structure Statics where
  gdt : Nat
  gp : Nat
  idt : Nat
  idtp : Nat
  isr : Nat → Nat
  gdtFits : gdt + 8 * gdtEntries ≤ 2 ^ 32
  idtFits : idt + 8 * idtEntries ≤ 2 ^ 32
  isrBound : ∀ vector, isr vector < 2 ^ 32
  gpApart : Disjoint gp 6 gdt (8 * gdtEntries)
  idtpApart : Disjoint idtp 6 idt (8 * idtEntries)
  tablesApart : Disjoint gdt (8 * gdtEntries) idt (8 * idtEntries)
  gdtApart : Disjoint gdt (8 * gdtEntries) idtp 6

structure TableRegister where
  limit : Nat
  base : Nat

def tableRegister (memory : Memory) (pointer : Nat) : TableRegister where
  limit := load16 memory pointer
  base := load32 memory (pointer + 2)

structure Processor where
  memory : Memory
  gdtr : TableRegister
  idtr : TableRegister
  cs : Nat
  ds : Nat
  es : Nat
  fs : Nat
  gs : Nat
  ss : Nat
  portWrites : List (Nat × Byte)

/-- The data segment registers are loaded one by one, the code segment by the far jump. -/
def gdtFlush (pointer : Nat) (processor : Processor) : Processor :=
  { processor with
    gdtr := tableRegister processor.memory pointer
    ds := 0x10, es := 0x10, fs := 0x10, gs := 0x10, ss := 0x10
    cs := 0x08 }

def idtLoad (idtp : Nat) (processor : Processor) : Processor :=
  { processor with idtr := tableRegister processor.memory idtp }

/-- `limit` and `base` of a packed pointer structure. -/
def storePointer (pointer limit base : Nat) (memory : Memory) : Memory :=
  store32 (store16 memory pointer limit) (pointer + 2) base

structure SegmentCall where
  num : Fin gdtEntries
  base : Nat
  limit : Nat
  access : Nat
  granularity : Nat

def setSegment (gdt : Nat) (memory : Memory) (call : SegmentCall) : Memory :=
  gdtSetGate gdt call.num call.base call.limit call.access call.granularity memory

/-- The null, code and data segments of `gdt_install`. -/
def segmentCalls : List SegmentCall :=
  [⟨0, 0, 0, 0, 0⟩, ⟨1, 0, 0xFFFFFFFF, 0x9A, 0xCF⟩, ⟨2, 0, 0xFFFFFFFF, 0x92, 0xCF⟩]

/-- `gdt_install` before the call of `gdt_flush`. -/
def gdtFill (statics : Statics) (memory : Memory) : Memory :=
  run (setSegment statics.gdt) (storePointer statics.gp (8 * gdtEntries - 1) statics.gdt memory)
    segmentCalls

def gdtInstall (statics : Statics) (processor : Processor) : Processor :=
  gdtFlush statics.gp { processor with memory := gdtFill statics processor.memory }

structure GateCall where
  num : Fin idtEntries
  base : Nat
  sel : Nat
  flags : Nat

def setGate (idt : Nat) (memory : Memory) (call : GateCall) : Memory :=
  idtSetGate idt call.num call.base call.sel call.flags memory

/-- The loop of `idt_install` over all entries. -/
def clearCalls : List GateCall := (List.finRange idtEntries).map fun i => ⟨i, 0, 0, 0⟩

def idtInstall (statics : Statics) (processor : Processor) : Processor :=
  let memory := storePointer statics.idtp (8 * idtEntries - 1) statics.idt processor.memory
  idtLoad statics.idtp { processor with
    memory := run (setGate statics.idt) memory clearCalls
    portWrites := processor.portWrites ++ isrPicRemap }

/-- The vectors `isr_install` has a line for. -/
def installedVectors : List (Fin idtEntries) :=
  (List.finRange 48).map (Fin.castLE (by decide)) ++ [⟨128, by decide⟩]

/-- The calls of `isr_install`, in order. -/
def installCalls (statics : Statics) : List GateCall :=
  installedVectors.map fun vector => ⟨vector, statics.isr vector, 0x08, 0x8E⟩

def isrInstall (statics : Statics) (processor : Processor) : Processor :=
  { processor with memory := run (setGate statics.idt) processor.memory (installCalls statics) }

/-- The three calls of `kmain` that set the tables up. -/
def installTables (statics : Statics) (processor : Processor) : Processor :=
  isrInstall statics (idtInstall statics (gdtInstall statics processor))

structure GdtEntry where
  limitLow : Nat
  baseLow : Nat
  baseMiddle : Nat
  access : Nat
  granularity : Nat
  baseHigh : Nat
  deriving DecidableEq

def gdtEntryOf (bytes : List Byte) : GdtEntry where
  limitLow := field bytes 0 2
  baseLow := field bytes 2 2
  baseMiddle := field bytes 4 1
  access := field bytes 5 1
  granularity := field bytes 6 1
  baseHigh := field bytes 7 1

structure IdtEntry where
  baseLo : Nat
  sel : Nat
  always0 : Nat
  flags : Nat
  baseHi : Nat
  deriving DecidableEq

def idtEntryOf (bytes : List Byte) : IdtEntry where
  baseLo := field bytes 0 2
  sel := field bytes 2 2
  always0 := field bytes 4 1
  flags := field bytes 5 1
  baseHi := field bytes 6 2

/-- The members as the arguments of `gdt_set_gate` leave them. -/
def gdtEntry (base limit access granularity : Nat) : GdtEntry where
  limitLow := limit % 2 ^ 16
  baseLow := base % 2 ^ 16
  baseMiddle := base / 2 ^ 16 % 2 ^ 8
  access := access % 2 ^ 8
  granularity := 2 ^ 4 * (granularity / 2 ^ 4 % 2 ^ 4) + limit / 2 ^ 16 % 2 ^ 4
  baseHigh := base / 2 ^ 24 % 2 ^ 8

/-- The members as the arguments of `idt_set_gate` leave them. -/
def idtEntry (base sel flags : Nat) : IdtEntry where
  baseLo := base % 2 ^ 16
  sel := sel % 2 ^ 16
  always0 := 0
  flags := flags % 2 ^ 8
  baseHi := base / 2 ^ 16 % 2 ^ 16

abbrev gdtTable (gdt : Nat) (fits : gdt + 8 * gdtEntries ≤ 2 ^ 32) : Table GdtEntry where
  base := gdt
  width := 8
  entries := gdtEntries
  view := gdtEntryOf
  fits := fits

abbrev idtTable (idt : Nat) (fits : idt + 8 * idtEntries ≤ 2 ^ 32) : Table IdtEntry where
  base := idt
  width := 8
  entries := idtEntries
  view := idtEntryOf
  fits := fits

def idtFields (base sel flags : Nat) : List Field :=
  [(0, encodeLE 2 (base &&& 0xFFFF)), (6, encodeLE 2 ((base >>> 16) &&& 0xFFFF)),
   (2, encodeLE 2 sel), (4, [0]), (5, [UInt8.ofNat flags])]

theorem idt_fields_within (base sel flags : Nat) : FieldsWithin 8 (idtFields base sel flags) := by
  simp [FieldsWithin, idtFields]

theorem idt_fields_apart (base sel flags : Nat) : (idtFields base sel flags).Pairwise Apart := by
  simp [idtFields, Apart]

theorem low_word (value : Nat) : value &&& 0xFFFF = value % 2 ^ 16 :=
  Nat.and_two_pow_sub_one_eq_mod value 16

theorem low_byte (value : Nat) : value &&& 0xFF = value % 2 ^ 8 :=
  Nat.and_two_pow_sub_one_eq_mod value 8

theorem low_nibble (value : Nat) : value &&& 0x0F = value % 2 ^ 4 :=
  Nat.and_two_pow_sub_one_eq_mod value 4

theorem idt_gate_stored {idt : Nat} (fits : idt + 8 * idtEntries ≤ 2 ^ 32) (memory : Memory)
    (call : GateCall) :
    (idtTable idt fits).Stores memory (setGate idt memory call) call.num
      (idtEntry call.base call.sel call.flags) := by
  obtain ⟨num, base, sel, flags⟩ := call
  have index : u8 num = num.val := Nat.mod_eq_of_lt num.isLt
  have inside : idt + 8 * num.val + 8 ≤ 2 ^ 32 := by
    have bound : num.val < idtEntries := num.isLt
    omega
  have written : setGate idt memory ⟨num, base, sel, flags⟩ =
      writeFields memory (idt + 8 * num.val) (idtFields base sel flags) := by
    rw [← index]
    rfl
  have within := idt_fields_within base sel flags
  have apart := idt_fields_apart base sel flags
  constructor
  · change idtEntryOf (readBytes (setGate idt memory ⟨num, base, sel, flags⟩)
      (idt + 8 * num.val) 8) = _
    rw [written]
    unfold idtEntryOf idtEntry
    congr 1
    · rw [written_word memory inside within apart 0 (base &&& 0xFFFF) (by simp [idtFields]),
        low_word, Nat.mod_mod]
    · exact written_word memory inside within apart 2 sel (by simp [idtFields])
    · exact written_byte memory inside within apart 4 0 (by simp [idtFields])
    · exact written_byte memory inside within apart 5 flags (by simp [idtFields])
    · rw [written_word memory inside within apart 6 ((base >>> 16) &&& 0xFFFF)
        (by simp [idtFields]), low_word, Nat.mod_mod, Nat.shiftRight_eq_div_pow]
  · rw [written]
    exact fields_change _ _ _ _ within

/-- The stores of `gdt_set_gate`, the two to `granularity` taken together. -/
def gdtFields (base limit access granularity : Nat) : List Field :=
  [(2, encodeLE 2 (base &&& 0xFFFF)), (4, [UInt8.ofNat ((base >>> 16) &&& 0xFF)]),
   (7, [UInt8.ofNat ((base >>> 24) &&& 0xFF)]), (0, encodeLE 2 (limit &&& 0xFFFF)),
   (6, [UInt8.ofNat (((limit >>> 16) &&& 0x0F) ||| (granularity &&& 0xF0))]),
   (5, [UInt8.ofNat access])]

theorem gdt_fields_within (base limit access granularity : Nat) :
    FieldsWithin 8 (gdtFields base limit access granularity) := by
  simp [FieldsWithin, gdtFields]

theorem gdt_fields_apart (base limit access granularity : Nat) :
    (gdtFields base limit access granularity).Pairwise Apart := by
  simp [gdtFields, Apart]

theorem write_byte_again (memory : Memory) (address : Nat) (first second : Byte) :
    writeByte (writeByte memory address first) address second =
      writeByte memory address second := by
  funext other
  unfold writeByte
  by_cases same : other = u32 address
  · rw [if_pos same, if_pos same]
  · rw [if_neg same, if_neg same, if_neg same]

theorem gdt_set_gate_fields (gdt num base limit access granularity : Nat) (memory : Memory) :
    gdtSetGate gdt num base limit access granularity memory =
      writeFields memory (gdt + 8 * num) (gdtFields base limit access granularity) := by
  unfold gdtSetGate
  simp only [write_byte_again, read_write_same, ← UInt8.ofNat_or]
  rfl

theorem high_nibble (value : Nat) : value &&& 0xF0 = 2 ^ 4 * (value / 2 ^ 4 % 2 ^ 4) := by
  have shifted : value &&& (0x0F <<< 4) = ((value >>> 4) &&& 0x0F) <<< 4 := by
    apply Nat.eq_of_testBit_eq
    intro i
    rw [Nat.testBit_and, Nat.testBit_shiftLeft, Nat.testBit_shiftLeft, Nat.testBit_and,
      Nat.testBit_shiftRight]
    by_cases high : 4 ≤ i
    · simp [high]
    · simp [high]
  rw [low_nibble, Nat.shiftRight_eq_div_pow, Nat.shiftLeft_eq (value / 2 ^ 4 % 2 ^ 4),
    Nat.mul_comm] at shifted
  exact shifted

theorem gdt_gate_stored {gdt : Nat} (fits : gdt + 8 * gdtEntries ≤ 2 ^ 32) (memory : Memory)
    (call : SegmentCall) :
    (gdtTable gdt fits).Stores memory (setSegment gdt memory call) call.num
      (gdtEntry call.base call.limit call.access call.granularity) := by
  obtain ⟨num, base, limit, access, granularity⟩ := call
  have inside : gdt + 8 * num.val + 8 ≤ 2 ^ 32 := by
    have bound : num.val < gdtEntries := num.isLt
    omega
  have within := gdt_fields_within base limit access granularity
  have apart := gdt_fields_apart base limit access granularity
  have written := gdt_set_gate_fields gdt num.val base limit access granularity memory
  constructor
  · change gdtEntryOf (readBytes (gdtSetGate gdt num.val base limit access granularity memory)
      (gdt + 8 * num.val) 8) = _
    rw [written]
    unfold gdtEntryOf gdtEntry
    congr 1
    · rw [written_word memory inside within apart 0 (limit &&& 0xFFFF) (by simp [gdtFields]),
        low_word, Nat.mod_mod]
    · rw [written_word memory inside within apart 2 (base &&& 0xFFFF) (by simp [gdtFields]),
        low_word, Nat.mod_mod]
    · rw [written_byte memory inside within apart 4 ((base >>> 16) &&& 0xFF)
        (by simp [gdtFields]), low_byte, Nat.mod_mod, Nat.shiftRight_eq_div_pow]
    · exact written_byte memory inside within apart 5 access (by simp [gdtFields])
    · rw [written_byte memory inside within apart 6
        (((limit >>> 16) &&& 0x0F) ||| (granularity &&& 0xF0)) (by simp [gdtFields]),
        low_nibble, high_nibble, Nat.shiftRight_eq_div_pow, Nat.or_comm,
        ← Nat.two_pow_add_eq_or_of_lt (Nat.mod_lt _ (by decide))]
      dsimp only
      omega
    · rw [written_byte memory inside within apart 7 ((base >>> 24) &&& 0xFF)
        (by simp [gdtFields]), low_byte, Nat.mod_mod, Nat.shiftRight_eq_div_pow]
  · change ChangesWithin memory (gdtSetGate gdt num.val base limit access granularity memory) _ _
    rw [written]
    exact fields_change _ _ _ _ within

end LumenOS.DescriptorTables
