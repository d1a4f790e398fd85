import LumenOS.ByteMemory
import LumenOS.StepRuns
import Mathlib.Logic.Function.Basic

/-!
# Tables of fixed-width records in memory

An array of records is a base address and a width. Storing one record is
whatever makes it read back and leaves every byte outside it alone; a run of
stores is then a run of updates of the array's contents, in which the last
store to an index wins.
-/

namespace LumenOS.RecordTable

open LumenOS.ByteMemory LumenOS.StepRuns

set_option autoImplicit false

def ChangesWithin (before after : Memory) (start count : Nat) : Prop :=
  ∀ address, (∀ i, i < count → u32 address ≠ u32 (start + i)) →
    readByte after address = readByte before address

theorem disjoint_symm {left leftCount right rightCount : Nat}
    (apart : Disjoint left leftCount right rightCount) :
    Disjoint right rightCount left leftCount := by
  intro i j iBound jBound same
  exact apart j i jBound iBound same.symm

theorem disjoint_part {left leftCount right rightCount start part : Nat}
    (apart : Disjoint left leftCount right rightCount) (inside : start + part ≤ rightCount) :
    Disjoint left leftCount (right + start) part := by
  intro i j iBound jBound
  rw [Nat.add_assoc]
  exact apart i (start + j) iBound (by omega)

/-- The same bytes written over memories that agree at a place leave them agreeing there. -/
theorem write_bytes_agree {left right : Memory} {other : Nat} (address : Nat) (bytes : List Byte)
    (same : readByte left other = readByte right other) :
    readByte (writeBytes left address bytes) other =
      readByte (writeBytes right address bytes) other := by
  induction bytes generalizing left right address with
  | nil => exact same
  | cons byte bytes ih =>
      apply ih
      unfold readByte writeByte
      split_ifs
      · rfl
      · exact same

section Frames

variable {before middle after : Memory} {start count : Nat}

theorem changes_none (memory : Memory) (start count : Nat) :
    ChangesWithin memory memory start count := fun _ _ => rfl

theorem changes_trans (first : ChangesWithin before middle start count)
    (second : ChangesWithin middle after start count) :
    ChangesWithin before after start count := by
  intro address outside
  rw [second address outside, first address outside]

theorem changes_wider {low part : Nat} (changed : ChangesWithin before after low part)
    (lower : start ≤ low) (upper : low + part ≤ start + count) :
    ChangesWithin before after start count := by
  intro address outside
  apply changed
  intro i bound
  have apart := outside (low - start + i) (by omega)
  rwa [show start + (low - start + i) = low + i by omega] at apart

theorem changes_written (memory : Memory) (address : Nat) (bytes : List Byte) :
    ChangesWithin memory (writeBytes memory address bytes) address bytes.length := by
  intro other outside
  exact write_bytes_outside _ _ _ _ outside

theorem changes_keep {other width : Nat} (changed : ChangesWithin before after start count)
    (apart : Disjoint other width start count) :
    readBytes after other width = readBytes before other width := by
  apply read_bytes_congr
  intro i bound
  exact changed _ fun j jBound => apart i j bound jBound

end Frames

section Ranges

def Outside (ranges : List (Nat × Nat)) (address : Nat) : Prop :=
  ∀ range ∈ ranges, ∀ i, i < range.2 → u32 address ≠ u32 (range.1 + i)

def KeepsOutside (ranges : List (Nat × Nat)) (before after : Memory) : Prop :=
  ∀ address, Outside ranges address → readByte after address = readByte before address

variable {ranges : List (Nat × Nat)} {before middle after : Memory}

theorem keeps_trans (first : KeepsOutside ranges before middle)
    (second : KeepsOutside ranges middle after) : KeepsOutside ranges before after := by
  intro address outside
  rw [second address outside, first address outside]

theorem changes_keeps {start count : Nat} (changed : ChangesWithin before after start count)
    (member : (start, count) ∈ ranges) : KeepsOutside ranges before after := by
  intro address outside
  exact changed address (outside (start, count) member)

theorem keeps_bytes (kept : KeepsOutside ranges before after) {address count : Nat}
    (outside : ∀ i, i < count → Outside ranges (address + i)) :
    readBytes after address count = readBytes before address count := by
  apply read_bytes_congr
  intro i bound
  exact kept _ (outside i bound)

theorem outside_disjoint {address count : Nat}
    (apart : ∀ range ∈ ranges, Disjoint address count range.1 range.2) (i : Nat)
    (bound : i < count) : Outside ranges (address + i) := by
  intro range member j jBound
  exact apart range member i j bound jBound

end Ranges

section Fields

abbrev Field := Nat × List Byte

def writeFields (memory : Memory) (start : Nat) (fields : List Field) : Memory :=
  fields.foldl (fun memory field => writeBytes memory (start + field.1) field.2) memory

def FieldsWithin (width : Nat) (fields : List Field) : Prop :=
  ∀ field ∈ fields, field.1 + field.2.length ≤ width

def Apart (first second : Field) : Prop :=
  first.1 + first.2.length ≤ second.1 ∨ second.1 + second.2.length ≤ first.1

instance (width : Nat) (fields : List Field) : Decidable (FieldsWithin width fields) :=
  inferInstanceAs (Decidable (∀ field ∈ fields, _))

instance (first second : Field) : Decidable (Apart first second) :=
  inferInstanceAs (Decidable (_ ∨ _))

theorem fields_change (memory : Memory) (start width : Nat) (fields : List Field)
    (within : FieldsWithin width fields) :
    ChangesWithin memory (writeFields memory start fields) start width := by
  induction fields generalizing memory with
  | nil => exact changes_none memory start width
  | cons field fields ih =>
      obtain ⟨head, tail⟩ := List.forall_mem_cons.mp within
      have first : ChangesWithin memory (writeBytes memory (start + field.1) field.2) start width :=
        changes_wider (changes_written memory (start + field.1) field.2) (by omega) (by omega)
      exact changes_trans first (ih _ tail)

theorem fields_keep (memory : Memory) (start width : Nat) (fields : List Field) (field : Field)
    (fits : start + width ≤ 2 ^ 32) (inside : field.1 + field.2.length ≤ width)
    (within : FieldsWithin width fields) (apart : ∀ other ∈ fields, Apart field other) :
    readBytes (writeFields memory start fields) (start + field.1) field.2.length =
      readBytes memory (start + field.1) field.2.length := by
  induction fields generalizing memory with
  | nil => rfl
  | cons other fields ih =>
      obtain ⟨head, tail⟩ := List.forall_mem_cons.mp within
      obtain ⟨separate, rest⟩ := List.forall_mem_cons.mp apart
      change readBytes (writeFields (writeBytes memory (start + other.1) other.2) start fields)
        _ _ = _
      rw [ih _ tail rest]
      apply read_write_bytes_disjoint
      apply disjoint_of_separate
      · omega
      · omega
      · unfold Apart at separate
        omega

/-- Fields that do not overlap read back as they were stored, whatever the order. -/
theorem field_stored (memory : Memory) (start width : Nat) (fields : List Field) (field : Field)
    (fits : start + width ≤ 2 ^ 32) (within : FieldsWithin width fields)
    (apart : fields.Pairwise Apart) (member : field ∈ fields) :
    readBytes (writeFields memory start fields) (start + field.1) field.2.length = field.2 := by
  induction fields generalizing memory with
  | nil => exact absurd member List.not_mem_nil
  | cons other fields ih =>
      obtain ⟨head, tail⟩ := List.forall_mem_cons.mp within
      obtain ⟨separate, rest⟩ := List.pairwise_cons.mp apart
      cases List.mem_cons.mp member with
      | inl same =>
          subst same
          change readBytes (writeFields (writeBytes memory _ _) start fields) _ _ = _
          rw [fields_keep _ start width fields field fits head tail separate]
          apply read_write_bytes_same
          omega
      | inr later => exact ih _ tail rest later

/-- The little-endian number at an offset of a record's bytes. -/
def field (bytes : List Byte) (offset count : Nat) : Nat :=
  decodeLE ((bytes.drop offset).take count)

theorem field_of_record (memory : Memory) (start width offset count : Nat)
    (inside : offset + count ≤ width) :
    field (readBytes memory start width) offset count =
      decodeLE (readBytes memory (start + offset) count) := by
  rw [field, read_bytes_slice memory start width offset count inside]

theorem written_field (memory : Memory) (start width : Nat) (fields : List Field) (offset : Nat)
    (bytes : List Byte) (fits : start + width ≤ 2 ^ 32) (within : FieldsWithin width fields)
    (apart : fields.Pairwise Apart) (member : (offset, bytes) ∈ fields) :
    field (readBytes (writeFields memory start fields) start width) offset bytes.length =
      decodeLE bytes := by
  rw [field_of_record _ _ _ _ _ (within _ member)]
  exact congrArg decodeLE (field_stored memory start width fields _ fits within apart member)

section Written

variable {fields : List Field} {start width : Nat} (memory : Memory)
  (fits : start + width ≤ 2 ^ 32) (within : FieldsWithin width fields)
  (apart : fields.Pairwise Apart)

include fits within apart

theorem written_word (offset value : Nat) (member : (offset, encodeLE 2 value) ∈ fields) :
    field (readBytes (writeFields memory start fields) start width) offset 2 = value % 2 ^ 16 := by
  have read := written_field memory start width fields offset _ fits within apart member
  rw [encode_le_length, decode_encode_le] at read
  exact read

theorem written_byte (offset value : Nat) (member : (offset, [UInt8.ofNat value]) ∈ fields) :
    field (readBytes (writeFields memory start fields) start width) offset 1 = value % 2 ^ 8 := by
  have read := written_field memory start width fields offset _ fits within apart member
  simpa [decodeLE] using read

end Written

end Fields

structure Table (Record : Type*) where
  base : Nat
  width : Nat
  entries : Nat
  view : List Byte → Record
  fits : base + width * entries ≤ 2 ^ 32

namespace Table

variable {Record : Type*} (table : Table Record)

def place (i : Nat) : Nat := table.base + table.width * i

def record (memory : Memory) (i : Nat) : Record :=
  table.view (readBytes memory (table.place i) table.width)

def contents (memory : Memory) : Fin table.entries → Record := fun i => table.record memory i

structure Stores (before after : Memory) (i : Nat) (value : Record) : Prop where
  stored : table.record after i = value
  frame : ChangesWithin before after (table.place i) table.width

theorem place_inside (i : Nat) (bound : i < table.entries) :
    table.base ≤ table.place i ∧
      table.place i + table.width ≤ table.base + table.width * table.entries := by
  have last : table.width * (i + 1) ≤ table.width * table.entries := Nat.mul_le_mul_left _ bound
  rw [Nat.mul_add, Nat.mul_one] at last
  unfold place
  constructor
  · omega
  · omega

theorem places_disjoint (i j : Nat) (iBound : i < table.entries) (jBound : j < table.entries)
    (different : i ≠ j) :
    Disjoint (table.place i) table.width (table.place j) table.width := by
  have inside := table.place_inside i iBound
  have outside := table.place_inside j jBound
  have fits := table.fits
  have ordered : ∀ low high, low < high →
      table.place low + table.width ≤ table.place high := by
    intro low high below
    have next : table.width * (low + 1) ≤ table.width * high := Nat.mul_le_mul_left _ below
    rw [Nat.mul_add, Nat.mul_one] at next
    unfold place
    omega
  apply disjoint_of_separate
  · omega
  · omega
  · cases Nat.lt_or_gt_of_ne different with
    | inl below => exact Or.inl (ordered i j below)
    | inr above => exact Or.inr (ordered j i above)

variable {table} {before after : Memory}

theorem stores_contents {i : Fin table.entries} {value : Record}
    (stores : table.Stores before after i value) :
    table.contents after = Function.update (table.contents before) i value := by
  funext j
  by_cases same : j = i
  · subst same
    rw [Function.update_self]
    exact stores.stored
  · rw [Function.update_of_ne same]
    have apart := table.places_disjoint j i j.isLt i.isLt fun equal => same (Fin.ext equal)
    exact congrArg table.view (changes_keep stores.frame apart)

theorem stores_change {i : Fin table.entries} {value : Record}
    (stores : table.Stores before after i value) :
    ChangesWithin before after table.base (table.width * table.entries) := by
  have inside := table.place_inside i i.isLt
  exact changes_wider stores.frame inside.1 inside.2

theorem contents_congr
    (same : ∀ i, i < table.width * table.entries →
      readByte after (table.base + i) = readByte before (table.base + i)) :
    table.contents after = table.contents before := by
  funext j
  have inside := table.place_inside j j.isLt
  apply congrArg table.view
  apply read_bytes_congr
  intro i bound
  have kept := same (table.place j - table.base + i) (by omega)
  rwa [show table.base + (table.place j - table.base + i) = table.place j + i by omega] at kept

theorem contents_kept {start count : Nat} (changed : ChangesWithin before after start count)
    (apart : Disjoint table.base (table.width * table.entries) start count) :
    table.contents after = table.contents before := by
  apply contents_congr
  intro i bound
  exact changed _ fun j jBound => apart i j bound jBound

section Runs

variable {Event : Type*} {step : Memory → Event → Memory} {index : Event → Fin table.entries}
  {value : Event → Record}
  (each : ∀ memory event, table.Stores memory (step memory event) (index event) (value event))

include each

theorem run_contents (memory : Memory) (events : List Event) :
    table.contents (run step memory events) =
      run (fun contents event => Function.update contents (index event) (value event))
        (table.contents memory) events := by
  have guarded : EachStep step (fun _ _ => True) memory events :=
    each_step_of_all step memory fun _ _ => trivial
  apply run_simulation table.contents _ _ memory events guarded
  intro state event _
  exact stores_contents (each state event)

theorem run_changes (memory : Memory) (events : List Event) :
    ChangesWithin memory (run step memory events) table.base (table.width * table.entries) := by
  apply run_invariant_always fun later =>
    ChangesWithin memory later table.base (table.width * table.entries)
  · intro state event changed
    exact changes_trans changed (stores_change (each state event))
  · exact changes_none memory _ _

end Runs

end Table

theorem updates_last {Index Value Event : Type*} [DecidableEq Index] (index : Event → Index)
    (value : Event → Value) (contents : Index → Value) (events : List Event) (i : Index) :
    run (fun contents event => Function.update contents (index event) (value event)) contents
        events i =
      ((lastWhere (fun event => decide (index event = i)) events).map value).getD (contents i) := by
  induction events using List.reverseRecOn with
  | nil => rfl
  | append_singleton events event ih =>
      rw [run_append, run_cons, run_nil, last_where_concat]
      by_cases same : index event = i
      · rw [same, Function.update_self, decide_eq_true rfl]
        rfl
      · rw [Function.update_of_ne fun equal => same equal.symm, decide_eq_false same]
        exact ih

theorem updates_agreeing {Index Value Event : Type*} [DecidableEq Index] (index : Event → Index)
    (value : Event → Value) (content : Index → Value) (events : List Event)
    (agree : ∀ event ∈ events, value event = content (index event)) (contents : Index → Value)
    (i : Index) :
    run (fun contents event => Function.update contents (index event) (value event)) contents
        events i =
      if i ∈ events.map index then content i else contents i := by
  induction events generalizing contents with
  | nil => rfl
  | cons event events ih =>
      obtain ⟨head, tail⟩ := List.forall_mem_cons.mp agree
      rw [run_cons, ih tail, List.map_cons]
      by_cases later : i ∈ events.map index
      · rw [if_pos later, if_pos (List.mem_cons_of_mem _ later)]
      · rw [if_neg later]
        by_cases here : i = index event
        · rw [if_pos (List.mem_cons.mpr (Or.inl here)), here, Function.update_self, head]
        · rw [if_neg (by simp [here, later]), Function.update_of_ne here]

end LumenOS.RecordTable
