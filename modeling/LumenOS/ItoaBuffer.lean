import LumenOS.NumericDirectives
import LumenOS.TerminatedText
import Mathlib.Data.List.GetD

/-!
# The buffers of `itoa`

`itoa` of `stdlib/stdio.c` fills a local buffer of 32 bytes with the digits of
its value, the lowest first, and copies it back to front to the string it is
given. A value in base two needs every byte of the buffer. The text is the one
`printf` and `sprintf` work with, so numerals say what it denotes.
-/

namespace LumenOS.ItoaBuffer

open LumenOS.ByteMemory LumenOS.ConsoleModel LumenOS.StdioModel LumenOS.NumericDirectives
open LumenOS.Numerals LumenOS.TerminatedText

set_option autoImplicit false

/-- The local buffer, its index, and the places stored to so far, the last one first. -/
structure DigitBuffer where
  buf : Nat → Byte
  i : Nat
  stores : List Nat

/-- `buf[i++] = c;` -/
def DigitBuffer.push (buffer : DigitBuffer) (c : Byte) : DigitBuffer where
  buf := fun place => if place = buffer.i then c else buffer.buf place
  i := buffer.i + 1
  stores := buffer.i :: buffer.stores

/-- The loop `while (uval)`. -/
def digitLoop (base : Nat) : Nat → Nat → DigitBuffer → Option DigitBuffer
  | 0, _, _ => none
  | rounds + 1, uval, buffer =>
      if uval = 0 then some buffer
      else digitLoop base rounds (uval / base) (buffer.push (digits.getD (uval % base) 0))

/-- The loop `while (i--) str[j++] = buf[i];` with the index `j` it ends with. -/
def reverseLoop (str : Nat) (buf : Nat → Byte) : Nat → Nat → Memory → Memory × Nat
  | 0, j, memory => (memory, j)
  | i + 1, j, memory => reverseLoop str buf i (j + 1) (writeByte memory (str + j) (buf i))

structure ItoaOutcome where
  memory : Memory
  stores : List Nat

/-- From the reversal on. -/
def itoaEnd (memory : Memory) (str : Nat) (buffer : DigitBuffer) : ItoaOutcome :=
  let (memory, j) := reverseLoop str buffer.buf buffer.i 0 memory
  ⟨writeByte memory (str + j) 0, buffer.stores⟩

/-- The local buffer holds anything at first. -/
def itoaAt (rounds : Nat) (memory : Memory) (buf : Nat → Byte) (value : Int) (str base : Nat) :
    Option ItoaOutcome :=
  let uval := toSize (if base = 10 ∧ value < 0 then -value else value)
  if value = 0 then
    some ⟨writeByte (writeByte memory str (charByte '0')) (str + 1) 0, []⟩
  else do
    let buffer ← digitLoop base rounds uval ⟨buf, 0, []⟩
    some (itoaEnd memory str
      (if base = 10 ∧ value < 0 then buffer.push (charByte '-') else buffer))

structure Holds (buffer : DigitBuffer) (text : List Byte) : Prop where
  contents : (List.range buffer.i).map buffer.buf = text
  stores : buffer.stores = (List.range buffer.i).reverse

section Buffers

variable {buffer : DigitBuffer} {text : List Byte}

theorem holds_nothing (buf : Nat → Byte) : Holds ⟨buf, 0, []⟩ [] := ⟨rfl, rfl⟩

theorem holds_length (holds : Holds buffer text) : text.length = buffer.i := by
  rw [← holds.contents, List.length_map, List.length_range]

theorem push_holds (holds : Holds buffer text) (c : Byte) :
    Holds (buffer.push c) (text ++ [c]) := by
  constructor
  · have earlier : (List.range buffer.i).map (buffer.push c).buf = text := by
      rw [← holds.contents]
      apply List.map_congr_left
      intro place member
      exact if_neg (Nat.ne_of_lt (List.mem_range.mp member))
    have here : (buffer.push c).buf buffer.i = c := if_pos rfl
    have next : (buffer.push c).i = buffer.i + 1 := rfl
    rw [next, List.range_succ, List.map_append, earlier, List.map_singleton, here]
  · simp [DigitBuffer.push, holds.stores, List.range_succ]

theorem digit_loop_holds (holds : Holds buffer text) (base uval count rounds : Nat)
    (bound : uval < base ^ count) (enough : count < rounds) :
    ∃ filled, digitLoop base rounds uval buffer = some filled ∧
      Holds filled (text ++ itoaLoop base count uval) := by
  induction count generalizing rounds uval buffer text with
  | zero =>
      have zero : uval = 0 := by simpa using bound
      cases rounds with
      | zero => exact absurd enough (Nat.lt_irrefl 0)
      | succ rounds =>
          refine ⟨buffer, by rw [digitLoop, if_pos zero], ?_⟩
          rwa [itoaLoop, List.append_nil]
  | succ count ih =>
      cases rounds with
      | zero => exact absurd enough (Nat.not_lt_zero _)
      | succ rounds =>
          rw [digitLoop, itoaLoop]
          by_cases zero : uval = 0
          · rw [if_pos zero, if_pos zero, List.append_nil]
            exact ⟨buffer, rfl, holds⟩
          · have smaller : uval / base < base ^ count := by
              rw [Nat.pow_succ] at bound
              exact Nat.div_lt_of_lt_mul (by rwa [Nat.mul_comm])
            rw [if_neg zero, if_neg zero, List.append_cons]
            exact ih (push_holds holds _) _ rounds smaller (Nat.lt_of_succ_lt_succ enough)

theorem reverse_loop_writes (str : Nat) (buf : Nat → Byte) (i j : Nat) (memory : Memory) :
    reverseLoop str buf i j memory =
      (writeBytes memory (str + j) ((List.range i).map buf).reverse, j + i) := by
  induction i generalizing j memory with
  | zero => rfl
  | succ i ih =>
      rw [reverseLoop, ih, List.range_succ, List.map_append, List.reverse_append]
      have next : j + 1 + i = j + (i + 1) := by omega
      rw [next]
      rfl

theorem itoa_end_holds (memory : Memory) (str : Nat) (holds : Holds buffer text) :
    itoaEnd memory str buffer = ⟨writeBytes memory str (text.reverse ++ [0]),
      (List.range text.reverse.length).reverse⟩ := by
  rw [itoaEnd, reverse_loop_writes, holds.contents, holds.stores, write_bytes_append,
    List.length_reverse, holds_length holds, Nat.zero_add, Nat.add_zero]
  rfl

/-- What a call does: the text of the list model goes to the string, and the
local buffer has been filled from its start. -/
theorem itoa_at_stores {value : Int} {base : Nat} (large : 1 < base) (nonzero : value ≠ 0)
    (rounds : Nat) (enough : 32 < rounds) (memory : Memory) (buf : Nat → Byte) (str : Nat) :
    itoaAt rounds memory buf value str base =
      some ⟨writeBytes memory str (itoa value base ++ [0]),
        (List.range (itoa value base).length).reverse⟩ := by
  have word : toSize (if base = 10 ∧ value < 0 then -value else value) < base ^ 32 :=
    Nat.lt_of_lt_of_le (to_size_word _) (Nat.pow_le_pow_left large 32)
  obtain ⟨filled, ends, holds⟩ :=
    digit_loop_holds (holds_nothing buf) base _ 32 rounds word enough
  rw [List.nil_append] at holds
  simp only [itoaAt, itoa, if_neg nonzero, ends, Option.bind_eq_bind, Option.bind_some]
  apply congrArg some
  generalize toSize (if base = 10 ∧ value < 0 then -value else value) = uval at holds ⊢
  split_ifs with sign
  · exact itoa_end_holds memory str (push_holds holds _)
  · exact itoa_end_holds memory str holds

end Buffers

section Texts

theorem numeral_text_digits {base : Nat} (large : 1 < base) (small : base ≤ 16) (value : Nat)
    (c : Byte) (member : c ∈ numeralText base value) : c ∈ digits := by
  obtain ⟨place, inside, rfl⟩ := List.mem_map.mp member
  have below := (numeral_canonical large value).below place inside
  have bound : place < digits.length := Nat.lt_of_lt_of_le below small
  rw [List.getD_eq_getElem _ _ bound]
  exact List.getElem_mem bound

variable {value : Int} (lower : -2 ^ 31 ≤ value) (upper : value < 2 ^ 31) {base : Nat}
  (large : 1 < base)

include lower upper large

/-- In base two every place of the buffer may be needed; in base ten the sign has room. -/
theorem itoa_short : (itoa value base).length ≤ 32 := by
  by_cases sign : base = 10 ∧ value < 0
  · obtain ⟨rfl, negative⟩ := sign
    have bound : (-value).toNat < 10 ^ 31 := by omega
    rw [itoa_negative value lower upper negative, List.length_cons, numeralText, List.length_map]
    exact Nat.succ_le_succ (numeral_length_le large (by decide) bound)
  · have bound : toSize value < base ^ 32 :=
      Nat.lt_of_lt_of_le (to_size_word value) (Nat.pow_le_pow_left large 32)
    rw [itoa_numeral value lower upper base large sign, numeralText, List.length_map]
    exact numeral_length_le large (by decide) bound

/-- The early return for zero leaves the local buffer alone. -/
theorem itoa_at_ends (memory : Memory) (buf : Nat → Byte) (str : Nat) :
    ∃ stores,
      (∀ rounds, 33 ≤ rounds → itoaAt rounds memory buf value str base =
        some ⟨writeBytes memory str (itoa value base ++ [0]), stores⟩) ∧
      (∀ place ∈ stores, place < 32) ∧ stores.length ≤ 32 := by
  by_cases zero : value = 0
  · refine ⟨[], ?_, List.forall_mem_nil _, Nat.zero_le 32⟩
    intro rounds enough
    rw [zero]
    rfl
  · have short := itoa_short lower upper large
    refine ⟨(List.range (itoa value base).length).reverse, ?_, ?_, ?_⟩
    · intro rounds enough
      exact itoa_at_stores large zero rounds enough memory buf str
    · intro place member
      exact Nat.lt_of_lt_of_le (List.mem_range.mp (List.mem_reverse.mp member)) short
    · rwa [List.length_reverse, List.length_range]

variable (small : base ≤ 16)

include small

theorem itoa_symbols (c : Byte) (member : c ∈ itoa value base) :
    c ∈ digits ∨ c = charByte '-' := by
  by_cases sign : base = 10 ∧ value < 0
  · obtain ⟨rfl, negative⟩ := sign
    rw [itoa_negative value lower upper negative] at member
    cases List.mem_cons.mp member with
    | inl minus => exact .inr minus
    | inr digit => exact .inl (numeral_text_digits large small _ c digit)
  · rw [itoa_numeral value lower upper base large sign] at member
    exact .inl (numeral_text_digits large small _ c member)

theorem itoa_denotes : if base = 10 then IsDecimal (itoa value base) value
    else IsNumeral base (itoa value base) (value % 2 ^ 32).toNat := by
  split_ifs with decimal
  · rw [decimal]
    exact itoa_signed value lower upper
  · exact itoa_unsigned value lower upper base large small decimal

theorem itoa_injective {other : Int} (otherLower : -2 ^ 31 ≤ other) (otherUpper : other < 2 ^ 31)
    (same : itoa other base = itoa value base) : other = value := by
  have denotes := itoa_denotes lower upper large small
  have otherDenotes := itoa_denotes otherLower otherUpper large small
  rw [same] at otherDenotes
  split_ifs at denotes otherDenotes with decimal
  · exact is_decimal_unique otherDenotes denotes
  · have words := is_numeral_unique otherDenotes denotes
    omega

theorem itoa_left (memory : Memory) (str : Nat) :
    Terminated (readByte (writeBytes memory str (itoa value base ++ [0]))) str
      (itoa value base) := by
  have nonzero : ∀ c ∈ digits, c ≠ 0 := by decide +kernel
  have short := itoa_short lower upper large
  apply written_terminated
  · intro c member
    cases itoa_symbols lower upper large small c member with
    | inl digit => exact nonzero c digit
    | inr minus =>
        rw [minus]
        decide
  · omega

end Texts

/-- A call stayed in its buffers and left the numeral of the value: in base ten
of the signed value, in the other bases of the unsigned word. -/
structure ItoaCorrect (memory : Memory) (value : Int) (str base : Nat) (outcome : ItoaOutcome)
    (text : List Byte) : Prop where
  buffered : ∀ place ∈ outcome.stores, place < 32
  few : outcome.stores.length ≤ 32
  stored : outcome.memory = writeBytes memory str (text ++ [0])
  short : (text ++ [0]).length ≤ 33
  string : Terminated (readByte outcome.memory) str text
  symbols : ∀ c ∈ text, c ∈ digits ∨ c = charByte '-'
  denotes : if base = 10 then IsDecimal text value
    else IsNumeral base text (value % 2 ^ 32).toNat

/-- Every call ends, within its buffers and with the numeral of its value; no
other value has the same numeral in the same base. -/
theorem itoa_correct (memory : Memory) (buf : Nat → Byte) (value : Int) (str base : Nat)
    (lower : -2 ^ 31 ≤ value) (upper : value < 2 ^ 31) (large : 2 ≤ base) (small : base ≤ 16) :
    ∃ outcome,
      (∀ rounds, 33 ≤ rounds → itoaAt rounds memory buf value str base = some outcome) ∧
      ItoaCorrect memory value str base outcome (itoa value base) ∧
      ∀ other, -2 ^ 31 ≤ other → other < 2 ^ 31 → other ≠ value →
        itoa other base ≠ itoa value base := by
  obtain ⟨stores, ends, buffered, few⟩ := itoa_at_ends lower upper large memory buf str
  refine ⟨_, ends, ?_, ?_⟩
  · constructor
    · exact buffered
    · exact few
    · rfl
    · rw [List.length_append]
      exact Nat.succ_le_succ (itoa_short lower upper large)
    · exact itoa_left lower upper large small memory str
    · exact itoa_symbols lower upper large small
    · exact itoa_denotes lower upper large small
  · intro other otherLower otherUpper different same
    exact different (itoa_injective lower upper large small otherLower otherUpper same)

/-- The minimum in base two takes every byte of the local buffer. -/
theorem itoa_correct_minimum :
    ∃ outcome, itoaAt 33 (fun _ => 0) (fun _ => 0) (-2 ^ 31) 100 2 = some outcome ∧
      outcome.stores.length = 32 ∧
      ItoaCorrect (fun _ => 0) (-2 ^ 31) 100 2 outcome (itoa (-2 ^ 31) 2) := by
  obtain ⟨outcome, ends, correct, -⟩ := itoa_correct (fun _ => 0) (fun _ => 0) (-2 ^ 31) 100 2
    (by decide) (by decide) (by decide) (by decide)
  have returned := ends 33 (by decide)
  refine ⟨outcome, returned, ?_, correct⟩
  have stores : (itoaAt 33 (fun _ => 0) (fun _ => 0) (-2 ^ 31) 100 2).map
      (fun outcome => outcome.stores.length) = some 32 := by decide +kernel
  rw [returned] at stores
  exact Option.some.inj stores

end LumenOS.ItoaBuffer
