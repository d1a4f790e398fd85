import LumenOS.ItoaBuffer
import LumenOS.RecordTable

/-!
# `sprintf` over the stack and the strings in memory

The same function with everything it touches in one memory: the format and the
string arguments are terminated texts, the arguments are words behind the
parameter `format` on the stack, and numerals pass through the local buffer.
Where the output shares no byte with what is read, the memory it leaves is the
one the lists of characters and arguments say, up to the local buffer.
-/

namespace LumenOS.SprintfMemory

open LumenOS.ByteMemory LumenOS.RecordTable LumenOS.StdioModel LumenOS.TerminatedText
open LumenOS.NumericDirectives LumenOS.Numerals LumenOS.ItoaBuffer LumenOS.ConsoleModel

set_option autoImplicit false

/-- `VA_ALIGN` of a type of the given size. -/
def vaAlign (size : Nat) : Nat := (size + 4 - 1) / 4 * 4

/-- Every type in use is one word wide. -/
def wordSize : Nat := 4

/-- The values of both named parameters, the address of the second, the
address of the local `buffer` and what the local buffer of `itoa` holds. -/
structure Call where
  str : Nat
  format : Nat
  formatParameter : Nat
  buffer : Nat
  digitBuffer : Nat → Byte

structure State where
  memory : Memory
  args : Nat
  i : Nat
  pos : Nat

def vaStart (call : Call) : Nat := u32 (call.formatParameter + vaAlign wordSize)

/-- The argument is read behind the step the pointer has just made. -/
def State.vaArg (state : State) : Nat × State :=
  let args := u32 (state.args + vaAlign wordSize)
  (load32 state.memory (u32 (args + (2 ^ 32 - vaAlign wordSize))), { state with args := args })

section Code

variable (call : Call)

/-- `str[pos++] = c`. -/
def State.store (state : State) (c : Byte) : State :=
  { state with
    memory := writeByte state.memory (call.str + state.pos) c
    pos := state.pos + 1 }

/-- `while (s[len]) len++`. -/
def lengthLoop (memory : Memory) (s : Nat) : Nat → Nat → Option Nat
  | 0, _ => none
  | rounds + 1, len =>
      if readByte memory (s + len) = 0 then some len else lengthLoop memory s rounds (len + 1)

def padLoop : Nat → State → State
  | 0, state => state
  | count + 1, state => padLoop count (state.store call (charByte ' '))

/-- `for (j = 0; s[j]; j++)`, with what is stored for each character. -/
def copyLoop (change : Byte → Byte) (s : Nat) : Nat → Nat → State → Option State
  | 0, _, _ => none
  | rounds + 1, j, state =>
      let c := readByte state.memory (s + j)
      if c = 0 then some state else copyLoop change s rounds (j + 1) (state.store call (change c))

/-- `itoa(value, buffer, base)`. -/
def itoaTo (rounds : Nat) (value : Nat) (base : Nat) (state : State) : Option State :=
  (itoaAt rounds state.memory call.digitBuffer (asInt (UInt32.ofNat value)) call.buffer base).map
    fun outcome => { state with memory := outcome.memory }

/-- A numeral on its own, and one with spaces before it. -/
def storeNumeral (rounds : Nat) (change : Byte → Byte) (value base : Nat) (state : State) :
    Option State := do
  let state ← itoaTo call rounds value base state
  copyLoop call change call.buffer rounds 0 state

def storePadded (rounds : Nat) (width : Int) (value base : Nat) (state : State) :
    Option State := do
  let state ← itoaTo call rounds value base state
  let len ← lengthLoop state.memory call.buffer rounds 0
  copyLoop call id call.buffer rounds 0 (padLoop call (padding width len) state)

/-- The two loops of `%s`, both guarded by the null test. -/
def storeString (rounds : Nat) (width : Int) (s : Nat) (state : State) : Option State :=
  if s = 0 then some (padLoop call (padding width 0) state)
  else do
    let len ← lengthLoop state.memory s rounds 0
    copyLoop call id s rounds 0 (padLoop call (padding width len) state)

def storeBase (state : State) : State :=
  (state.store call (charByte '0')).store call (charByte 'x')

/-- The numeral is made before the base is stored. -/
def storeHex (rounds : Nat) (change : Byte → Byte) (value : Nat) (state : State) :
    Option State := do
  let state ← itoaTo call rounds value 16 state
  copyLoop call change call.buffer rounds 0 (storeBase call state)

/-- The `switch`. The pointer of `%p` is stored before it is converted. -/
def directive (rounds : Nat) (width : Int) (c : Byte) (state : State) : Option State :=
  if c = charByte 'c' then
    let (value, state) := state.vaArg
    some (state.store call (UInt32.ofNat value).toUInt8)
  else if c = charByte 's' then
    let (s, state) := state.vaArg
    storeString call rounds width s state
  else if c = charByte 'd' ∨ c = charByte 'i' then
    let (val, state) := state.vaArg
    storePadded call rounds width val 10 state
  else if c = charByte 'u' then
    let (val, state) := state.vaArg
    storePadded call rounds width val 10 state
  else if c = charByte 'x' then
    let (val, state) := state.vaArg
    storeHex call rounds id val state
  else if c = charByte 'X' then
    let (val, state) := state.vaArg
    storeHex call rounds uppercase val state
  else if c = charByte 'o' then
    let (val, state) := state.vaArg
    storeNumeral call rounds id val 8 state
  else if c = charByte 'p' then
    let (ptr, state) := state.vaArg
    storeNumeral call rounds id ptr 16 (storeBase call state)
  else if c = charByte '%' then some (state.store call (charByte '%'))
  else some ((state.store call (charByte '%')).store call c)

def State.next (state : State) : State := { state with i := state.i + 1 }

/-- The loop over the format, outside a directive or in the width of one. -/
def formatLoop : Nat → Option Int → State → Option State
  | 0, _, _ => none
  | rounds + 1, none, state =>
      let c := readByte state.memory (call.format + state.i)
      if c = 0 then some state
      else if c = charByte '%' then formatLoop rounds (some 0) state.next
      else formatLoop rounds none (state.store call c).next
  | rounds + 1, some width, state =>
      let c := readByte state.memory (call.format + state.i)
      if IsDigit c then formatLoop rounds (some (widthStep width c)) state.next
      else do
        let state ← directive call rounds width c state
        formatLoop rounds none state.next

/-- The memory and the position returned. -/
def sprintfAt (rounds : Nat) (memory : Memory) : Option (Memory × Nat) :=
  (formatLoop call rounds none ⟨memory, vaStart call, 0, 0⟩).map fun state =>
    (writeByte state.memory (call.str + state.pos) 0, state.pos)

end Code

section Regions

variable (call : Call) (extent : Nat)

/-- No byte of the output, whose length is the extent, and none of `buffer`. -/
def Untouched (address : Nat) : Prop :=
  (∀ i, i < extent → u32 address ≠ u32 (call.str + i)) ∧
    ∀ i, i < 32 → u32 address ≠ u32 (call.buffer + i)

def Clear (address count : Nat) : Prop := ∀ i, i < count → Untouched call extent (address + i)

/-- One argument as it lies on the stack. -/
def ArgAt (memory : Memory) (address : Nat) : Arg → Prop
  | .word value | .pointer value => load32 memory address = value.toNat
  | .string none => load32 memory address = 0
  | .string (some s) => load32 memory address ≠ 0 ∧
      Terminated (readByte memory) (load32 memory address) s ∧
      Clear call extent (load32 memory address) (s.length + 1)

/-- The arguments lie one behind the other. -/
def Supplied (memory : Memory) : Nat → List Arg → Prop
  | _, [] => True
  | address, arg :: rest => ArgAt call extent memory address arg ∧ Clear call extent address 4 ∧
      Supplied memory (u32 (address + 4)) rest

/-- The output so far, with everything else as the caller left it. -/
structure Written (memory : Memory) (state : State) (text : List Byte) : Prop where
  pos : state.pos = text.length
  stored : readBytes state.memory call.str text.length = text
  kept : ∀ address, Untouched call extent address →
    readByte state.memory address = readByte memory address

structure Advances (memory : Memory) (state final : State) (text : List Byte) : Prop where
  written : Written call extent memory final text
  i : final.i = state.i
  args : final.args = state.args

end Regions

section Stores

variable {call : Call} {extent : Nat} {memory : Memory} {state : State} {text : List Byte}

theorem store_elsewhere (c : Byte) {address : Nat} (inside : state.pos < extent)
    (off : ∀ i, i < extent → u32 address ≠ u32 (call.str + i)) :
    readByte (state.store call c).memory address = readByte state.memory address :=
  read_write_other _ _ _ _ (off state.pos inside)

theorem written_store (word : extent ≤ 2 ^ 32) (written : Written call extent memory state text)
    (room : text.length < extent) (c : Byte) :
    Written call extent memory (state.store call c) (text ++ [c]) := by
  have pos := written.pos
  constructor
  · rw [List.length_append]
    exact congrArg (· + 1) pos
  · have earlier : readBytes (state.store call c).memory call.str text.length = text := by
      rw [← written.stored]
      simp only [read_bytes_length]
      apply read_bytes_congr
      intro i bound
      apply read_write_other
      rw [pos]
      unfold u32
      omega
    have here : readByte (state.store call c).memory (call.str + text.length) = c := by
      rw [← pos]
      exact read_write_same _ _ _
    rw [List.length_append, List.length_singleton, read_bytes_succ, earlier, here]
  · intro address untouched
    rw [store_elsewhere c (by omega) untouched.1]
    exact written.kept address untouched

theorem store_text (c : Byte) {s : Nat} {source : List Byte} (inside : state.pos < extent)
    (off : Disjoint s (source.length + 1) call.str extent)
    (spelled : Terminated (readByte state.memory) s source) :
    Terminated (readByte (state.store call c).memory) s source := by
  apply terminated_congr spelled
  intro i within
  exact store_elsewhere c inside fun j bound => off i j (by omega) bound

theorem pad_written (word : extent ≤ 2 ^ 32) (count : Nat)
    (written : Written call extent memory state text) (room : text.length + count < extent) :
    Advances call extent memory state (padLoop call count state)
      (text ++ List.replicate count (charByte ' ')) := by
  induction count generalizing state text with
  | zero =>
      rw [List.replicate_zero, List.append_nil]
      exact ⟨written, rfl, rfl⟩
  | succ count ih =>
      have first := written_store word written (by omega) (charByte ' ')
      have rest := ih first (by rw [List.length_append, List.length_singleton]; omega)
      rw [List.append_assoc, List.singleton_append, ← List.replicate_succ] at rest
      exact ⟨rest.written, rest.i, rest.args⟩

theorem pad_text (count : Nat) {s : Nat} {source : List Byte} (inside : state.pos + count < extent)
    (off : Disjoint s (source.length + 1) call.str extent)
    (spelled : Terminated (readByte state.memory) s source) :
    Terminated (readByte (padLoop call count state).memory) s source := by
  induction count generalizing state with
  | zero => exact spelled
  | succ count ih =>
      apply ih
      · change state.pos + 1 + count < extent
        omega
      · exact store_text _ (by omega) off spelled

theorem base_stored (word : extent ≤ 2 ^ 32)
    (written : Written call extent memory state text) (room : text.length + 2 < extent) :
    Advances call extent memory state (storeBase call state)
      (text ++ [charByte '0', charByte 'x']) := by
  have zero := written_store word written (by omega) (charByte '0')
  have length : (text ++ [charByte '0']).length = text.length + 1 := List.length_append
  have radix := written_store word zero (by omega) (charByte 'x')
  rw [List.append_assoc, List.singleton_append] at radix
  exact ⟨radix, rfl, rfl⟩

theorem base_text {s : Nat} {source : List Byte} (inside : state.pos + 2 < extent)
    (off : Disjoint s (source.length + 1) call.str extent)
    (spelled : Terminated (readByte state.memory) s source) :
    Terminated (readByte (storeBase call state).memory) s source := by
  apply store_text _ _ off
  · exact store_text _ (by omega) off spelled
  · change state.pos + 1 < extent
    omega

theorem length_loop_ends {s : Nat} {source : List Byte} (len rounds : Nat)
    (spelled : Terminated (readByte memory) (s + len) source) (enough : source.length < rounds) :
    lengthLoop memory s rounds len = some (len + source.length) := by
  induction source generalizing len rounds with
  | nil =>
      obtain ⟨rounds, rfl⟩ := Nat.exists_eq_succ_of_ne_zero (Nat.ne_zero_of_lt enough)
      exact if_pos spelled
  | cons c source ih =>
      obtain ⟨rounds, rfl⟩ := Nat.exists_eq_succ_of_ne_zero (Nat.ne_zero_of_lt enough)
      obtain ⟨here, nonzero, later⟩ := spelled
      rw [lengthLoop, here, if_neg nonzero]
      have next := ih (len + 1) rounds later (Nat.lt_of_succ_lt_succ enough)
      rw [next, List.length_cons]
      congr 1
      omega

theorem copy_written (word : extent ≤ 2 ^ 32) (change : Byte → Byte) {s : Nat}
    {source : List Byte} (j rounds : Nat) (written : Written call extent memory state text)
    (spelled : Terminated (readByte state.memory) (s + j) source)
    (off : Disjoint (s + j) (source.length + 1) call.str extent)
    (room : text.length + source.length < extent) (enough : source.length < rounds) :
    ∃ final, copyLoop call change s rounds j state = some final ∧
      Advances call extent memory state final (text ++ source.map change) := by
  induction source generalizing j rounds state text with
  | nil =>
      obtain ⟨rounds, rfl⟩ := Nat.exists_eq_succ_of_ne_zero (Nat.ne_zero_of_lt enough)
      rw [List.map_nil, List.append_nil]
      exact ⟨state, if_pos spelled, written, rfl, rfl⟩
  | cons c source ih =>
      obtain ⟨rounds, rfl⟩ := Nat.exists_eq_succ_of_ne_zero (Nat.ne_zero_of_lt enough)
      obtain ⟨here, nonzero, later⟩ := spelled
      rw [List.length_cons] at off room enough
      have inside : state.pos < extent := by
        rw [written.pos]
        omega
      have behind : Disjoint (s + j + 1) (source.length + 1) call.str extent := by
        intro i k iBound kBound
        rw [Nat.add_assoc]
        exact off (1 + i) k (by omega) kBound
      have stored := written_store word written (by omega) (change c)
      obtain ⟨final, copied, advances⟩ := ih (j + 1) rounds stored
        (store_text (change c) inside behind later) behind
        (by rw [List.length_append, List.length_singleton]; omega)
        (Nat.lt_of_succ_lt_succ enough)
      rw [List.append_assoc, List.singleton_append] at advances
      refine ⟨final, ?_, advances.written, advances.i, advances.args⟩
      rw [copyLoop]
      simp only [here, if_neg nonzero]
      exact copied

end Stores

section Numerals

/-- In the bases in use a numeral with its sign and terminator is far from
filling `buffer`. -/
theorem itoa_fits (value : UInt32) {base : Nat} (large : 8 ≤ base) :
    (itoa (asInt value) base).length ≤ 12 := by
  obtain ⟨lower, upper⟩ := as_int_range value
  by_cases sign : base = 10 ∧ asInt value < 0
  · obtain ⟨rfl, negative⟩ := sign
    have bound : (-asInt value).toNat < 10 ^ 11 := by omega
    rw [itoa_negative _ lower upper negative, List.length_cons, numeralText, List.length_map]
    exact Nat.succ_le_succ (numeral_length_le (by decide) (by decide) bound)
  · have bound : toSize (asInt value) < base ^ 11 :=
      Nat.lt_of_lt_of_le (to_size_word _)
        (Nat.le_trans (show 2 ^ 32 ≤ 8 ^ 11 by decide) (Nat.pow_le_pow_left large 11))
    rw [itoa_numeral _ lower upper base (by omega) sign, numeralText, List.length_map]
    exact Nat.le_succ_of_le (numeral_length_le (by omega) (by decide) bound)

variable {call : Call} {extent : Nat} {memory : Memory} {state : State} {text : List Byte}

structure Converted (call : Call) (extent : Nat) (memory : Memory) (state final : State)
    (text numeral : List Byte) : Prop where
  advances : Advances call extent memory state final text
  spelled : Terminated (readByte final.memory) call.buffer numeral

theorem itoa_converts (apart : Disjoint call.buffer 32 call.str extent)
    (room : text.length ≤ extent) (written : Written call extent memory state text)
    (value : UInt32) {base : Nat} (large : 8 ≤ base) (small : base ≤ 16) (rounds : Nat)
    (enough : 33 ≤ rounds) :
    ∃ final, itoaTo call rounds value.toNat base state = some final ∧
      Converted call extent memory state final text (itoa (asInt value) base) := by
  obtain ⟨lower, upper⟩ := as_int_range value
  obtain ⟨stores, ends, -⟩ := itoa_at_ends lower upper (show 1 < base by omega) state.memory
    call.digitBuffer call.buffer
  have fits := itoa_fits value large
  have length : (itoa (asInt value) base ++ [0]).length ≤ 13 := by
    rw [List.length_append]
    exact Nat.succ_le_succ fits
  have word : UInt32.ofNat value.toNat = value := UInt32.ofNat_toNat
  refine ⟨{ state with
    memory := writeBytes state.memory call.buffer (itoa (asInt value) base ++ [0]) }, ?_, ?_⟩
  · unfold itoaTo
    rw [word, ends rounds enough]
    rfl
  · refine ⟨⟨⟨written.pos, ?_, ?_⟩, rfl, rfl⟩, ?_⟩
    · have kept := read_write_bytes_disjoint state.memory call.buffer
        (itoa (asInt value) base ++ [0]) call.str text.length ?_
      · exact kept.trans written.stored
      · intro i j iBound jBound same
        exact apart j i (by omega) (by omega) same.symm
    · intro address untouched
      have outside := write_bytes_outside state.memory call.buffer (itoa (asInt value) base ++ [0])
        address fun i bound => untouched.2 i (by omega)
      exact outside.trans (written.kept address untouched)
    · exact itoa_left lower upper (by omega) small state.memory call.buffer

/-- The numeral is far enough from the output for its characters to be copied. -/
theorem numeral_apart (apart : Disjoint call.buffer 32 call.str extent) (value : UInt32)
    {base : Nat} (large : 8 ≤ base) :
    Disjoint call.buffer ((itoa (asInt value) base).length + 1) call.str extent := by
  have fits := itoa_fits value large
  intro i j iBound jBound
  exact apart i j (by omega) jBound

section Texts

variable (word : extent ≤ 2 ^ 32) (apart : Disjoint call.buffer 32 call.str extent)
  (written : Written call extent memory state text) (value : UInt32) {rounds : Nat}
  (enough : 33 ≤ rounds)

include word apart written enough

theorem numeral_stored {base : Nat} (large : 8 ≤ base) (small : base ≤ 16)
    (change : Byte → Byte)
    (room : text.length + (itoa (asInt value) base).length < extent) :
    ∃ final, storeNumeral call rounds change value.toNat base state = some final ∧
      Advances call extent memory state final
        (text ++ (itoa (asInt value) base).map change) := by
  have fits := itoa_fits value large
  obtain ⟨middle, converted, advances, spelled⟩ := itoa_converts apart (by omega) written value
    large small rounds enough
  obtain ⟨final, copied, written, i, args⟩ := copy_written word change 0 rounds
    advances.written spelled (numeral_apart apart value large) room (by omega)
  refine ⟨final, ?_, written, i.trans advances.i, args.trans advances.args⟩
  unfold storeNumeral
  rw [converted]
  exact copied

/-- The numeral is made before the spaces and the spaces do not reach it. -/
theorem padded_stored {base : Nat} (large : 8 ≤ base) (small : base ≤ 16) (width : Int)
    (room : text.length + (padding width (itoa (asInt value) base).length +
      (itoa (asInt value) base).length) < extent) :
    ∃ final, storePadded call rounds width value.toNat base state = some final ∧
      Advances call extent memory state final
        (text ++ (List.replicate (padding width (itoa (asInt value) base).length)
          (charByte ' ') ++ itoa (asInt value) base)) := by
  have fits := itoa_fits value large
  obtain ⟨middle, converted, advances, spelled⟩ := itoa_converts apart (by omega) written value
    large small rounds enough
  have off := numeral_apart apart value large
  have length := length_loop_ends 0 rounds spelled (by omega)
  rw [Nat.zero_add] at length
  have padded := pad_written word (padding width (itoa (asInt value) base).length)
    advances.written (by omega)
  have kept := pad_text (padding width (itoa (asInt value) base).length)
    (by rw [advances.written.pos]; omega) off spelled
  obtain ⟨final, copied, written, i, args⟩ := copy_written word id 0 rounds padded.written kept off
    (by rw [List.length_append, List.length_replicate]; omega) (by omega)
  rw [List.map_id, List.append_assoc] at written
  refine ⟨final, ?_, written, ?_, ?_⟩
  · unfold storePadded
    simp only [converted, length, Option.bind_eq_bind, Option.bind_some]
    exact copied
  · rw [i, padded.i, advances.i]
  · rw [args, padded.args, advances.args]

/-- The base goes before the numeral and does not reach it. -/
theorem hex_stored (change : Byte → Byte)
    (room : text.length + (2 + (itoa (asInt value) 16).length) < extent) :
    ∃ final, storeHex call rounds change value.toNat state = some final ∧
      Advances call extent memory state final
        (text ++ ([charByte '0', charByte 'x'] ++ (itoa (asInt value) 16).map change)) := by
  have fits := itoa_fits value (show 8 ≤ 16 by decide)
  obtain ⟨middle, converted, advances, spelled⟩ := itoa_converts apart (by omega) written value
    (show 8 ≤ 16 by decide) (Nat.le_refl 16) rounds enough
  have off := numeral_apart apart value (show 8 ≤ 16 by decide)
  have radix := base_stored word advances.written (by omega)
  have kept := base_text (by rw [advances.written.pos]; omega) off spelled
  obtain ⟨final, copied, written, i, args⟩ := copy_written word change 0 rounds radix.written kept
    off (by rw [List.length_append, List.length_cons, List.length_singleton]; omega) (by omega)
  rw [List.append_assoc] at written
  refine ⟨final, ?_, written, ?_, ?_⟩
  · unfold storeHex
    rw [converted]
    exact copied
  · rw [i, radix.i, advances.i]
  · rw [args, radix.args, advances.args]

end Texts

end Numerals

section Arguments

variable {call : Call} {extent : Nat} {memory : Memory} {state : State} {text : List Byte}
  {args rest : List Arg} {more : List Byte}

theorem va_arg_reads (state : State) :
    state.vaArg = (load32 state.memory state.args,
      { state with args := u32 (state.args + 4) }) := by
  have back : load32 state.memory (u32 (u32 (state.args + 4) + (2 ^ 32 - 4))) =
      load32 state.memory state.args := by
    apply congrArg decodeLE
    apply read_bytes_congr
    intro i bound
    apply congrArg state.memory
    unfold u32
    omega
  exact Prod.ext back rfl

theorem word_first {value : UInt32} (taken : vaWord args = some (value, rest)) :
    args = .word value :: rest := by
  unfold vaWord at taken
  split at taken <;> cases taken
  rfl

theorem pointer_first {address : UInt32} (taken : vaPointer args = some (address, rest)) :
    args = .pointer address :: rest := by
  unfold vaPointer at taken
  split at taken <;> cases taken
  rfl

theorem string_first {bytes : List Byte} (taken : vaString args = some (bytes, rest)) :
    ∃ s : Option (List Byte), args = .string s :: rest ∧ s.getD [] = bytes := by
  unfold vaString at taken
  split at taken <;> cases taken
  exact ⟨_, rfl, rfl⟩

theorem arg_kept {arg : Arg} (written : Written call extent memory state text)
    (supplied : Supplied call extent memory state.args (arg :: rest)) :
    load32 state.memory state.args = load32 memory state.args := by
  apply load32_congr
  intro i bound
  exact written.kept _ (supplied.2.1 i bound)

theorem value_read {arg : Arg} {value : UInt32} (written : Written call extent memory state text)
    (supplied : Supplied call extent memory state.args (arg :: rest))
    (held : load32 memory state.args = value.toNat) :
    state.vaArg = (value.toNat, { state with args := u32 (state.args + 4) }) := by
  rw [va_arg_reads, arg_kept written supplied, held]

theorem written_args (written : Written call extent memory state text) (args : Nat) :
    Written call extent memory { state with args := args } text :=
  ⟨written.pos, written.stored, written.kept⟩

theorem source_kept {address : Nat} {source : List Byte}
    (written : Written call extent memory state text)
    (clear : Clear call extent address (source.length + 1))
    (spelled : Terminated (readByte memory) address source) :
    Terminated (readByte state.memory) address source := by
  apply terminated_congr spelled
  intro i within
  exact written.kept _ (clear i (Nat.lt_succ_of_le within))

theorem string_stored (word : extent ≤ 2 ^ 32) (written : Written call extent memory state text)
    (s : Option (List Byte)) {address : Nat}
    (held : ArgAt call extent memory state.args (.string s))
    (read : load32 memory state.args = address) (width : Int) (rounds : Nat)
    (room : text.length + (padding width (s.getD []).length + (s.getD []).length) < extent)
    (enough : (s.getD []).length < rounds) :
    ∃ final, storeString call rounds width address { state with args := u32 (state.args + 4) } =
        some final ∧
      Advances call extent memory { state with args := u32 (state.args + 4) } final
        (text ++ (List.replicate (padding width (s.getD []).length) (charByte ' ') ++
          s.getD [])) := by
  have started := written_args written (u32 (state.args + 4))
  cases s with
  | none =>
      have null : address = 0 := read.symm.trans held
      have padded := pad_written word (padding width 0) started (by simpa using room)
      rw [null]
      refine ⟨_, if_pos rfl, ?_⟩
      rw [Option.getD_none, List.length_nil, List.append_nil]
      exact padded
  | some source =>
      obtain ⟨nonzero, spelled, clear⟩ := held
      rw [read] at nonzero spelled clear
      rw [Option.getD_some] at room enough ⊢
      have off : Disjoint address (source.length + 1) call.str extent :=
        fun i j iBound jBound => (clear i iBound).1 j jBound
      have here := source_kept started clear spelled
      have length := length_loop_ends 0 rounds here enough
      rw [Nat.zero_add] at length
      have padded := pad_written word (padding width source.length) started (by omega)
      have kept := pad_text (padding width source.length) (by rw [started.pos]; omega) off here
      obtain ⟨final, copied, written, i, args⟩ := copy_written word id 0 rounds padded.written kept
        off (by rw [List.length_append, List.length_replicate]; omega) enough
      rw [List.map_id, List.append_assoc] at written
      refine ⟨final, ?_, written, i.trans padded.i, args.trans padded.args⟩
      unfold storeString
      simp only [if_neg nonzero, length, Option.bind_eq_bind, Option.bind_some]
      exact copied

structure Performs (call : Call) (extent : Nat) (memory : Memory) (state final : State)
    (text : List Byte) (rest : List Arg) : Prop where
  written : Written call extent memory final text
  i : final.i = state.i
  supplied : Supplied call extent memory final.args rest

theorem advances_performs {arg : Arg} {final : State}
    (supplied : Supplied call extent memory state.args (arg :: rest))
    (advances : Advances call extent memory { state with args := u32 (state.args + 4) } final
      text) :
    Performs call extent memory state final text rest := by
  refine ⟨advances.written, advances.i, ?_⟩
  rw [advances.args]
  exact supplied.2.2

section Directives

variable (word : extent ≤ 2 ^ 32) (written : Written call extent memory state text)

include word written

theorem string_performs {s : Option (List Byte)} (width : Int) (rounds : Nat)
    (supplied : Supplied call extent memory state.args (.string s :: rest))
    (room : text.length + (List.replicate (padding width (s.getD []).length)
      (charByte ' ') ++ s.getD []).length < extent)
    (enough : (s.getD []).length < rounds) :
    ∃ final, storeString call rounds width state.vaArg.1 state.vaArg.2 = some final ∧
      Performs call extent memory state final
        (text ++ (List.replicate (padding width (s.getD []).length) (charByte ' ') ++
          s.getD [])) rest := by
  rw [List.length_append, List.length_replicate] at room
  have value : state.vaArg = (load32 memory state.args,
      { state with args := u32 (state.args + 4) }) := by
    rw [va_arg_reads, arg_kept written supplied]
  obtain ⟨final, stored, advances⟩ := string_stored word written s supplied.1 rfl width rounds room
    enough
  rw [value]
  exact ⟨final, stored, advances_performs supplied advances⟩

variable (apart : Disjoint call.buffer 32 call.str extent)

include apart

theorem decimal_performs {value : UInt32} (width : Int) (rounds : Nat)
    (supplied : Supplied call extent memory state.args (.word value :: rest))
    (room : text.length + (List.replicate (padding width (itoa (asInt value) 10).length)
      (charByte ' ') ++ itoa (asInt value) 10).length < extent) (enough : 33 ≤ rounds) :
    ∃ final, storePadded call rounds width state.vaArg.1 10 state.vaArg.2 = some final ∧
      Performs call extent memory state final
        (text ++ (List.replicate (padding width (itoa (asInt value) 10).length)
          (charByte ' ') ++ itoa (asInt value) 10)) rest := by
  rw [List.length_append, List.length_replicate] at room
  obtain ⟨final, stored, advances⟩ := padded_stored word apart
    (written_args written (u32 (state.args + 4))) value enough (show 8 ≤ 10 by decide)
    (show 10 ≤ 16 by decide) width room
  rw [value_read written supplied supplied.1]
  exact ⟨final, stored, advances_performs supplied advances⟩

theorem hex_performs {value : UInt32} (change : Byte → Byte) (rounds : Nat)
    (supplied : Supplied call extent memory state.args (.word value :: rest))
    (room : text.length + ([charByte '0', charByte 'x'] ++
      (itoa (asInt value) 16).map change).length < extent) (enough : 33 ≤ rounds) :
    ∃ final, storeHex call rounds change state.vaArg.1 state.vaArg.2 = some final ∧
      Performs call extent memory state final
        (text ++ ([charByte '0', charByte 'x'] ++ (itoa (asInt value) 16).map change)) rest := by
  rw [List.length_append, List.length_map] at room
  obtain ⟨final, stored, advances⟩ := hex_stored word apart
    (written_args written (u32 (state.args + 4))) value enough change room
  rw [value_read written supplied supplied.1]
  exact ⟨final, stored, advances_performs supplied advances⟩

theorem octal_performs {value : UInt32} (rounds : Nat)
    (supplied : Supplied call extent memory state.args (.word value :: rest))
    (room : text.length + (itoa (asInt value) 8).length < extent) (enough : 33 ≤ rounds) :
    ∃ final, storeNumeral call rounds id state.vaArg.1 8 state.vaArg.2 = some final ∧
      Performs call extent memory state final (text ++ itoa (asInt value) 8) rest := by
  obtain ⟨final, stored, advances⟩ := numeral_stored word apart
    (written_args written (u32 (state.args + 4))) value enough (Nat.le_refl 8)
    (show 8 ≤ 16 by decide) id room
  rw [List.map_id] at advances
  rw [value_read written supplied supplied.1]
  exact ⟨final, stored, advances_performs supplied advances⟩

theorem pointer_performs {value : UInt32} (rounds : Nat)
    (supplied : Supplied call extent memory state.args (.pointer value :: rest))
    (room : text.length + ([charByte '0', charByte 'x'] ++ itoa (asInt value) 16).length < extent)
    (enough : 33 ≤ rounds) :
    ∃ final, storeNumeral call rounds id state.vaArg.1 16 (storeBase call state.vaArg.2) =
        some final ∧
      Performs call extent memory state final
        (text ++ ([charByte '0', charByte 'x'] ++ itoa (asInt value) 16)) rest := by
  rw [List.length_append, List.length_cons, List.length_singleton] at room
  have radix := base_stored word (written_args written (u32 (state.args + 4))) (by omega)
  obtain ⟨final, stored, advances⟩ := numeral_stored word apart radix.written value enough
    (show 8 ≤ 16 by decide) (Nat.le_refl 16) id
    (by rw [List.length_append, List.length_cons, List.length_singleton]; omega)
  rw [List.map_id, List.append_assoc] at advances
  rw [value_read written supplied supplied.1]
  exact ⟨final, stored, advances_performs supplied
    ⟨advances.written, advances.i.trans radix.i, advances.args.trans radix.args⟩⟩

theorem directive_stores {width : Int} {c : Byte}
    (result : sprintfDirective width c args = some (more, rest))
    (supplied : Supplied call extent memory state.args args)
    (room : text.length + more.length < extent) (rounds : Nat)
    (enough : more.length + 33 ≤ rounds) :
    ∃ final, directive call rounds width c state = some final ∧
      Performs call extent memory state final (text ++ more) rest := by
  unfold sprintfDirective at result
  unfold directive
  by_cases isC : c = charByte 'c'
  · rw [if_pos isC] at result ⊢
    obtain ⟨⟨value, others⟩, taken, stored⟩ := Option.bind_eq_some_iff.mp result
    obtain rfl := word_first taken
    cases stored
    rw [value_read written supplied supplied.1]
    have low : (UInt32.ofNat value.toNat).toUInt8 = value.toUInt8 := by
      rw [UInt32.ofNat_toNat]
    refine ⟨_, rfl, advances_performs supplied ⟨?_, rfl, rfl⟩⟩
    rw [low]
    have room : text.length < extent := Nat.lt_of_le_of_lt (Nat.le_add_right _ _) room
    exact written_store word (written_args written _) room _
  rw [if_neg isC] at result ⊢
  by_cases isS : c = charByte 's'
  · rw [if_pos isS] at result ⊢
    obtain ⟨⟨bytes, others⟩, taken, stored⟩ := Option.bind_eq_some_iff.mp result
    obtain ⟨s, rfl, rfl⟩ := string_first taken
    cases stored
    apply string_performs word written width rounds supplied room
    rw [List.length_append] at enough
    omega
  rw [if_neg isS] at result ⊢
  by_cases isD : c = charByte 'd' ∨ c = charByte 'i'
  · rw [if_pos isD] at result ⊢
    obtain ⟨⟨value, others⟩, taken, stored⟩ := Option.bind_eq_some_iff.mp result
    obtain rfl := word_first taken
    cases stored
    exact decimal_performs word written apart width rounds supplied room (by omega)
  rw [if_neg isD] at result ⊢
  by_cases isU : c = charByte 'u'
  · rw [if_pos isU] at result ⊢
    obtain ⟨⟨value, others⟩, taken, stored⟩ := Option.bind_eq_some_iff.mp result
    obtain rfl := word_first taken
    cases stored
    exact decimal_performs word written apart width rounds supplied room (by omega)
  rw [if_neg isU] at result ⊢
  by_cases isX : c = charByte 'x'
  · rw [if_pos isX] at result ⊢
    obtain ⟨⟨value, others⟩, taken, stored⟩ := Option.bind_eq_some_iff.mp result
    obtain rfl := word_first taken
    cases stored
    have plain : (itoa (asInt value) 16).map id = itoa (asInt value) 16 := List.map_id _
    have performs := hex_performs word written apart id rounds supplied (by rwa [plain]) (by omega)
    rwa [plain] at performs
  rw [if_neg isX] at result ⊢
  by_cases isBigX : c = charByte 'X'
  · rw [if_pos isBigX] at result ⊢
    obtain ⟨⟨value, others⟩, taken, stored⟩ := Option.bind_eq_some_iff.mp result
    obtain rfl := word_first taken
    cases stored
    exact hex_performs word written apart uppercase rounds supplied room (by omega)
  rw [if_neg isBigX] at result ⊢
  by_cases isO : c = charByte 'o'
  · rw [if_pos isO] at result ⊢
    obtain ⟨⟨value, others⟩, taken, stored⟩ := Option.bind_eq_some_iff.mp result
    obtain rfl := word_first taken
    cases stored
    exact octal_performs word written apart rounds supplied room (by omega)
  rw [if_neg isO] at result ⊢
  by_cases isP : c = charByte 'p'
  · rw [if_pos isP] at result ⊢
    obtain ⟨⟨value, others⟩, taken, stored⟩ := Option.bind_eq_some_iff.mp result
    obtain rfl := pointer_first taken
    cases stored
    exact pointer_performs word written apart rounds supplied room (by omega)
  rw [if_neg isP] at result ⊢
  by_cases isPercent : c = charByte '%'
  · rw [if_pos isPercent] at result ⊢
    cases result
    have room : text.length < extent := Nat.lt_of_le_of_lt (Nat.le_add_right _ _) room
    exact ⟨_, rfl, written_store word written room _, rfl, supplied⟩
  rw [if_neg isPercent] at result ⊢
  cases result
  have room : text.length + 2 < extent := room
  have first := written_store word written (by omega) (charByte '%')
  have second := written_store word first
    (by rw [List.length_append, List.length_singleton]; omega) c
  rw [List.append_assoc] at second
  exact ⟨_, rfl, second, rfl, supplied⟩

end Directives

end Arguments

section Loop

variable {call : Call} {extent : Nat} {memory : Memory} (word : extent ≤ 2 ^ 32)
  (apart : Disjoint call.buffer 32 call.str extent)

include word apart

theorem loop_stores {format : List Byte} {width : Option Int} {args : List Arg}
    {stored text : List Byte} {state : State}
    (result : sprintfLoop width format args = some stored)
    (spelled : Terminated (readByte memory) (call.format + state.i) format)
    (clear : Clear call extent (call.format + state.i) (format.length + 1))
    (supplied : Supplied call extent memory state.args args)
    (written : Written call extent memory state text)
    (room : text.length + stored.length < extent) (rounds : Nat)
    (enough : format.length + stored.length + 34 ≤ rounds) :
    ∃ final, formatLoop call rounds width state = some final ∧
      Written call extent memory final (text ++ stored) := by
  obtain ⟨rounds, rfl⟩ := Nat.exists_eq_succ_of_ne_zero (show rounds ≠ 0 by omega)
  induction format generalizing width args stored text state rounds with
  | nil =>
      have ended : readByte state.memory (call.format + state.i) = 0 :=
        (written.kept _ (clear 0 (Nat.zero_lt_succ _))).trans spelled
      cases width with
      | none =>
          cases result
          rw [List.append_nil]
          exact ⟨state, if_pos ended, written⟩
      | some width => cases result
  | cons c format ih =>
      obtain ⟨here, nonzero, later⟩ := spelled
      have symbol : readByte state.memory (call.format + state.i) = c :=
        (written.kept _ (clear 0 (Nat.zero_lt_succ _))).trans here
      have behind : Clear call extent (call.format + state.i + 1) (format.length + 1) := by
        intro i bound
        rw [Nat.add_assoc, Nat.add_comm 1]
        exact clear (i + 1) (Nat.succ_lt_succ bound)
      rw [List.length_cons] at enough
      obtain ⟨fewer, rfl⟩ := Nat.exists_eq_succ_of_ne_zero (show rounds ≠ 0 by omega)
      cases width with
      | none =>
          rw [sprintfLoop] at result
          simp only [formatLoop, symbol, if_neg nonzero]
          by_cases percent : c = charByte '%'
          · rw [if_pos percent] at result ⊢
            exact @ih (some 0) args stored text state.next result later behind supplied
              ⟨written.pos, written.stored, written.kept⟩ room fewer (by omega)
          · rw [if_neg percent] at result ⊢
            obtain ⟨rest, looped, rfl⟩ := Option.map_eq_some_iff.mp result
            rw [List.length_cons] at room enough
            have more := written_store word written (by omega) c
            obtain ⟨final, ends, all⟩ := @ih none args rest (text ++ [c]) (state.store call c).next
              looped later behind supplied ⟨more.pos, more.stored, more.kept⟩
              (by rw [List.length_append, List.length_singleton]; omega) fewer (by omega)
            rw [List.append_assoc] at all
            exact ⟨final, ends, all⟩
      | some width =>
          rw [sprintfLoop] at result
          simp only [formatLoop, symbol]
          by_cases digit : IsDigit c
          · rw [if_pos digit] at result ⊢
            exact @ih (some (widthStep width c)) args stored text state.next result later behind
              supplied ⟨written.pos, written.stored, written.kept⟩ room fewer (by omega)
          · rw [if_neg digit] at result ⊢
            obtain ⟨⟨more, remaining⟩, performed, mapped⟩ := Option.bind_eq_some_iff.mp result
            obtain ⟨rest, looped, rfl⟩ := Option.map_eq_some_iff.mp mapped
            rw [List.length_append] at room enough
            obtain ⟨middle, performs, now, i, left⟩ := directive_stores word written apart
              performed supplied (by omega) (fewer + 1) (by omega)
            rw [← i] at later behind
            obtain ⟨final, ends, all⟩ := @ih none remaining rest (text ++ more) middle.next looped
              later behind left ⟨now.pos, now.stored, now.kept⟩
              (by rw [List.length_append]; omega) fewer (by omega)
            rw [List.append_assoc] at all
            rw [performs]
            exact ⟨final, ends, all⟩

end Loop

theorem written_agrees {call : Call} {memory : Memory} {state : State} {text : List Byte}
    (written : Written call text.length memory state text) (word : text.length ≤ 2 ^ 32)
    (address : Nat) (off : ∀ i, i < 32 → u32 address ≠ u32 (call.buffer + i)) :
    readByte state.memory address = readByte (writeBytes memory call.str text) address := by
  by_cases outside : ∀ i, i < text.length → u32 address ≠ u32 (call.str + i)
  · rw [written.kept address ⟨outside, off⟩, write_bytes_outside _ _ _ _ outside]
  · simp only [not_forall, not_not] at outside
    obtain ⟨i, inside, same⟩ := outside
    have place : ∀ other : Memory, readByte other address = readByte other (call.str + i) :=
      fun other => congrArg other same
    have read := read_bytes_get state.memory call.str text.length i inside
    rw [written.stored, List.getElem?_eq_getElem inside] at read
    rw [place, place, write_bytes_inside memory call.str text i inside word]
    exact (Option.some.inj read).symm

/-- The call ends with the length and the memory said, `buffer` aside. -/
def Leaves (call : Call) (rounds : Nat) (memory after : Memory) (length : Nat) : Prop :=
  ∃ final, sprintfAt call rounds memory = some (final, length) ∧
    ∀ address, (∀ i, i < 32 → u32 address ≠ u32 (call.buffer + i)) →
      readByte final address = readByte after address

/-- With nothing it reads in the way of its output, `sprintf` leaves what it
leaves for the lists of characters and arguments. -/
theorem sprintf_refines (call : Call) (memory after : Memory) (text : List Byte) (args : List Arg)
    (length : Nat) (result : sprintf memory call.str text args = some (after, length))
    (short : length < 2 ^ 31) (spelled : Terminated (readByte memory) call.format text)
    (clear : Clear call (length + 1) call.format (text.length + 1))
    (supplied : Supplied call (length + 1) memory (vaStart call) args)
    (apart : Disjoint call.buffer 32 call.str (length + 1)) (rounds : Nat)
    (enough : text.length + length + 34 ≤ rounds) : Leaves call rounds memory after length := by
  obtain ⟨stored, looped, pair⟩ := Option.map_eq_some_iff.mp result
  cases pair
  have word : stored.length + 1 ≤ 2 ^ 32 := by omega
  have nothing : Written call (stored.length + 1) memory ⟨memory, vaStart call, 0, 0⟩ [] :=
    ⟨rfl, rfl, fun _ _ => rfl⟩
  obtain ⟨final, ends, all⟩ := @loop_stores call _ memory word apart text none args stored []
    ⟨memory, vaStart call, 0, 0⟩ looped spelled clear supplied nothing
    (by rw [List.length_nil, Nat.zero_add]; exact Nat.lt_succ_self _) rounds enough
  rw [List.nil_append] at all
  refine ⟨writeByte final.memory (call.str + final.pos) 0, ?_, ?_⟩
  · unfold sprintfAt
    rw [ends, Option.map_some, all.pos]
  · have closed := written_store word all (Nat.lt_succ_self _) 0
    have length : (stored ++ [(0 : Byte)]).length = stored.length + 1 := List.length_append
    rw [← length] at closed word
    intro address off
    exact written_agrees closed word address off

theorem clear_of_disjoint {call : Call} {extent address count : Nat}
    (output : Disjoint address count call.str extent)
    (buffer : Disjoint address count call.buffer 32) : Clear call extent address count :=
  fun i bound => ⟨fun j => output i j bound, fun j => buffer i j bound⟩

def sampleMemory : Memory := fun address =>
  (([(0x1000, charByte '%'), (0x1001, charByte 's'), (0x1002, charByte '='),
    (0x1003, charByte '%'), (0x1004, charByte 'd'), (0x1100, charByte 'x'),
    (0x2005, 0x11), (0x2008, 0xFF), (0x2009, 0xFF), (0x200A, 0xFF), (0x200B, 0xFF)] :
      List (Nat × Byte)).lookup address).getD 0

def sampleCall : Call := ⟨0x3000, 0x1000, 0x2000, 0x2100, fun _ => 0⟩

def sampleText : List Byte := ['%', 's', '=', '%', 'd'].map charByte

def sampleArgs : List Arg := [.string (some [charByte 'x']), .word 0xFFFFFFFF]

theorem sample_clear (address count : Nat) (below : address + count ≤ 0x2100) :
    Clear sampleCall 5 address count := by
  apply clear_of_disjoint
  · apply disjoint_of_separate
    · omega
    · decide
    · exact .inl (Nat.le_trans below (by decide))
  · apply disjoint_of_separate
    · omega
    · decide
    · exact .inl below

theorem sample_supplied : Supplied sampleCall 5 sampleMemory (vaStart sampleCall) sampleArgs := by
  have address : load32 sampleMemory (vaStart sampleCall) = 0x1100 := by decide +kernel
  refine ⟨⟨?_, ?_, ?_⟩, ?_, ?_, ?_, trivial⟩
  · rw [address]
    decide
  · rw [address]
    exact ⟨by decide, by decide, rfl⟩
  · rw [address]
    exact sample_clear 0x1100 2 (by decide)
  · exact sample_clear 0x2004 4 (by decide)
  · change load32 sampleMemory 0x2008 = 0xFFFFFFFF
    decide +kernel
  · exact sample_clear 0x2008 4 (by decide)

theorem sprintf_refines_sample :
    Leaves sampleCall 43 sampleMemory
      (writeBytes sampleMemory 0x3000 (['x', '=', '-', '1'].map charByte ++ [0])) 4 := by
  apply sprintf_refines sampleCall sampleMemory _ sampleText sampleArgs 4
  · have stored : sprintfStored sampleText sampleArgs =
        some (['x', '=', '-', '1'].map charByte) := by decide +kernel
    unfold sprintf
    rw [stored]
    rfl
  · decide
  · exact ⟨by decide, by decide, by decide, by decide, by decide, by decide, by decide, by decide,
      by decide, by decide, rfl⟩
  · exact sample_clear 0x1000 6 (by decide)
  · exact sample_supplied
  · exact disjoint_of_separate (by decide) (by decide) (by decide)
  · decide

end LumenOS.SprintfMemory
