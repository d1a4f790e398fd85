import LumenOS.PrintLength

/-!
# Copying strings

`memset`, `strcpy` and `strncpy` of `stdlib/string.c` over flat memory, for
every overlap of the two strings. `strcpy` stops at the terminator only as long
as it has not written over it before, and never stops otherwise; `strncpy`
always stops, and repeats what lies between the two places there.
-/

namespace LumenOS.StringCopies

open LumenOS.ByteMemory LumenOS.TerminatedText LumenOS.PrintLength

set_option autoImplicit false

/-- The loop from round `i` on, with so many rounds left. -/
def setFrom (memory : Memory) (dest : Nat) (v : Byte) : Nat → Nat → Memory
  | 0, _ => memory
  | left + 1, i => setFrom (writeByte memory (dest + i) v) dest v left (i + 1)

/-- The value is an `int` and cut to a byte. -/
def memset (memory : Memory) (dest : Nat) (value : Int) (size : Nat) : Memory :=
  setFrom memory dest (UInt8.ofInt value) size 0

def strcpy : Nat → Memory → Nat → Nat → Option Memory
  | 0, _, _, _ => none
  | rounds + 1, memory, d, s =>
      let c := readByte memory s
      let stored := writeByte memory d c
      if c ≠ 0 then strcpy rounds stored (d + 1) (s + 1) else some stored

/-- The two loops of `strncpy` share their counter: the second one pads. -/
def strncpyFrom (memory : Memory) (dest src : Nat) : Nat → Nat → Memory
  | 0, _ => memory
  | left + 1, i =>
      if readByte memory (src + i) ≠ 0 then
        strncpyFrom (writeByte memory (dest + i) (readByte memory (src + i))) dest src left (i + 1)
      else setFrom memory dest 0 (left + 1) i

def strncpy (memory : Memory) (dest src n : Nat) : Memory := strncpyFrom memory dest src n 0

theorem set_from_writes (memory : Memory) (dest : Nat) (v : Byte) (left i : Nat) :
    setFrom memory dest v left i = writeBytes memory (dest + i) (List.replicate left v) := by
  induction left generalizing memory i with
  | zero => rfl
  | succ left ih =>
      rw [setFrom, ih, List.replicate_succ]
      rfl

theorem memset_writes (memory : Memory) (dest : Nat) (value : Int) (size : Nat) :
    memset memory dest value size =
      writeBytes memory dest (List.replicate size (UInt8.ofInt value)) :=
  set_from_writes memory dest (UInt8.ofInt value) size 0

section Kept

variable {memory : Memory} {d s : Nat} {c : Byte} {rest : List Byte}

theorem rest_kept (later : Terminated (readByte memory) (s + 1) rest) (value : Byte)
    (sFits : s + 1 + rest.length < 2 ^ 32) (dFits : d < 2 ^ 32)
    (safe : d ≤ s ∨ s + 1 + rest.length < d) :
    Terminated (readByte (writeByte memory d value)) (s + 1) rest := by
  apply terminated_congr later
  intro i within
  apply read_write_other
  unfold u32
  omega

end Kept

section Strcpy

variable {memory : Memory} {d s : Nat} {text : List Byte}

theorem strcpy_copies (spelled : Terminated (readByte memory) s text)
    (sFits : s + text.length < 2 ^ 32) (dFits : d + text.length < 2 ^ 32)
    (safe : d ≤ s ∨ s + text.length < d) (rounds : Nat) (enough : text.length < rounds) :
    strcpy rounds memory d s = some (writeBytes memory d (text ++ [0])) := by
  induction text generalizing memory d s rounds with
  | nil =>
      obtain ⟨rounds, rfl⟩ := Nat.exists_eq_succ_of_ne_zero (Nat.ne_zero_of_lt enough)
      have last : readByte memory s = 0 := spelled
      rw [strcpy]
      rw [last, if_neg (fun more => more rfl)]
      rfl
  | cons c rest ih =>
      obtain ⟨rounds, rfl⟩ := Nat.exists_eq_succ_of_ne_zero (Nat.ne_zero_of_lt enough)
      rw [List.length_cons] at sFits dFits safe enough
      obtain ⟨here, nonzero, later⟩ := spelled
      have kept := rest_kept later c (by omega) (show d < 2 ^ 32 by omega) (by omega)
      rw [strcpy]
      rw [here, if_pos nonzero]
      exact ih kept (by omega) (by omega) (by omega) rounds (by omega)

/-- The bytes between the two places are the only ones read from now on. -/
theorem strcpy_runs_on (gap : Nat) (apart : 0 < gap)
    (between : ∀ j, j < gap → readByte memory (s + j) ≠ 0) (rounds : Nat) :
    strcpy rounds memory (s + gap) s = none := by
  induction rounds generalizing memory s with
  | zero => rfl
  | succ rounds ih =>
      have here : readByte memory s ≠ 0 := between 0 apart
      have next : ∀ j, j < gap →
          readByte (writeByte memory (s + gap) (readByte memory s)) (s + 1 + j) ≠ 0 := by
        intro j within
        by_cases written : u32 (s + 1 + j) = u32 (s + gap)
        · unfold readByte writeByte
          rw [written, if_pos rfl]
          exact here
        · rw [read_write_other _ _ _ _ written]
          by_cases last : j + 1 = gap
          · exact absurd (congrArg u32 (show s + 1 + j = s + gap by omega)) written
          · rw [Nat.add_assoc, Nat.add_comm 1]
            exact between (j + 1) (by omega)
      rw [strcpy]
      rw [if_pos here, Nat.add_right_comm]
      exact ih next

/-- The destination begins behind the first of the places read and not behind
the last one. -/
def Overlaps (dest src length : Nat) : Prop := src < dest ∧ dest ≤ src + length

/-- Where it does not overlap, `strcpy` leaves the text with its end and nothing
else, and `strlen` gives back its length; where it does, it never returns. -/
structure StrcpyOutcome (memory : Memory) (dest src : Nat) (text : List Byte) : Prop where
  copies : ¬ Overlaps dest src text.length → ∀ rounds, text.length < rounds →
    strcpy rounds memory dest src = some (writeBytes memory dest (text ++ [0])) ∧
      strlen rounds (writeBytes memory dest (text ++ [0])) dest = some text.length
  runs_on : Overlaps dest src text.length → ∀ rounds, strcpy rounds memory dest src = none

theorem strcpy_outcome (memory : Memory) (dest src : Nat) (text : List Byte)
    (string : StringAt memory src text) (notNull : 0 < dest)
    (fits : dest + text.length < 2 ^ 32) : StrcpyOutcome memory dest src text := by
  constructor
  · intro apart rounds enough
    have safe : dest ≤ src ∨ src + text.length < dest := by
      unfold Overlaps at apart
      omega
    have copied : StringAt (writeBytes memory dest (text ++ [0])) dest text :=
      ⟨written_terminated memory dest text (terminated_no_zero string.spelled) (by omega), notNull,
        fits⟩
    constructor
    · exact strcpy_copies string.spelled string.fits fits safe rounds enough
    · exact strlen_from_ends copied 0 (Nat.zero_le _) rounds (by omega)
  · intro overlaps rounds
    obtain ⟨gap, rfl⟩ := Nat.exists_eq_add_of_le (Nat.le_of_lt overlaps.1)
    unfold Overlaps at overlaps
    apply strcpy_runs_on gap (by omega)
    intro j within
    rw [terminated_get string.spelled j (by omega)]
    exact terminated_no_zero string.spelled _ (List.getElem_mem _)

end Strcpy

section Strncpy

variable {memory : Memory} {dest src : Nat}

theorem strncpy_copies (left i : Nat) {text : List Byte} (nonzero : ∀ c ∈ text, c ≠ 0)
    (reads : ∀ j, j < left → j ≤ text.length →
      readByte memory (src + i + j) = text.getD j 0)
    (srcFits : src + i + text.length < 2 ^ 32)
    (destFits : dest + i + left ≤ 2 ^ 32)
    (safe : dest ≤ src ∨ src + min text.length (left - 1) < dest) :
    strncpyFrom memory dest src left i =
      writeBytes memory (dest + i)
        (text.take left ++ List.replicate (left - text.length) 0) := by
  induction left generalizing memory i text with
  | zero =>
      rw [List.take_zero, Nat.zero_sub]
      rfl
  | succ left ih =>
      have here := reads 0 (Nat.zero_lt_succ left) (Nat.zero_le _)
      rw [Nat.add_zero] at here
      cases text with
      | nil =>
          rw [strncpyFrom, here, if_neg (fun more => more rfl), set_from_writes]
          rfl
      | cons c rest =>
          rw [List.getD_cons_zero] at here
          rw [List.length_cons] at srcFits safe
          rw [Nat.add_sub_cancel] at safe
          have later : ∀ j, j < left → j ≤ rest.length →
              readByte (writeByte memory (dest + i) c) (src + (i + 1) + j) = rest.getD j 0 := by
            intro j within inside
            have next := reads (j + 1) (by omega) (by rw [List.length_cons]; omega)
            rw [List.getD_cons_succ] at next
            rw [read_write_other, ← next]
            · apply congrArg
              omega
            · unfold u32
              omega
          rw [strncpyFrom, here, if_pos (nonzero c List.mem_cons_self),
            ih (i + 1) (fun c member => nonzero c (List.mem_cons_of_mem _ member)) later
              (by omega) (by omega) (by omega),
            List.length_cons, Nat.add_sub_add_right]
          rfl

/-- What is copied is read again a gap further on. -/
theorem strncpy_repeats (gap : Nat) (apart : 0 < gap) {repeated : Nat → Byte}
    (period : ∀ k, repeated (k + gap) = repeated k) (nonzero : ∀ k, repeated k ≠ 0) (left i : Nat)
    (between : ∀ j, j < gap → readByte memory (src + i + j) = repeated (i + j))
    (fits : src + gap + i + left ≤ 2 ^ 32) :
    strncpyFrom memory (src + gap) src left i =
      writeBytes memory (src + gap + i) (window repeated i left) := by
  induction left generalizing memory i with
  | zero => rfl
  | succ left ih =>
      have here : readByte memory (src + i) = repeated i := between 0 apart
      have later : ∀ j, j < gap →
          readByte (writeByte memory (src + gap + i) (repeated i)) (src + (i + 1) + j) =
            repeated (i + 1 + j) := by
        intro j within
        by_cases last : j + 1 = gap
        · have place : src + (i + 1) + j = src + gap + i := by omega
          have round : i + 1 + j = i + gap := by omega
          rw [place, read_write_same, round, period]
        · have place : src + (i + 1) + j = src + i + (j + 1) := by omega
          have round : i + 1 + j = i + (j + 1) := by omega
          rw [place, round, ← between (j + 1) (by omega)]
          apply read_write_other
          unfold u32
          omega
      rw [strncpyFrom, here, if_pos (nonzero i), ih (i + 1) later (by omega)]
      rfl

/-- Where no place is written before it is read, `strncpy` leaves the first `n`
characters and pads with zeros; else the characters between the two places over
and over, without an end. -/
structure StrncpyOutcome (memory : Memory) (dest src n : Nat) (text : List Byte) : Prop where
  copies : ¬ Overlaps dest src (min text.length (n - 1)) →
    strncpy memory dest src n =
      writeBytes memory dest (text.take n ++ List.replicate (n - text.length) 0)
  repeats : Overlaps dest src (min text.length (n - 1)) →
    strncpy memory dest src n =
      writeBytes memory dest (window (fun k => text.getD (k % (dest - src)) 0) 0 n)

theorem strncpy_outcome (memory : Memory) (dest src n : Nat) (text : List Byte)
    (string : StringAt memory src text) (fits : dest + n ≤ 2 ^ 32) :
    StrncpyOutcome memory dest src n text := by
  have srcFits := string.fits
  have nonzero := terminated_no_zero string.spelled
  have reads : ∀ j, j ≤ text.length → readByte memory (src + j) = text.getD j 0 := by
    intro j within
    by_cases inside : j < text.length
    · rw [terminated_get string.spelled j inside, List.getD_eq_getElem _ _ inside]
    · have last : j = text.length := by omega
      rw [last, terminated_end string.spelled, List.getD_eq_default _ _ (Nat.le_refl _)]
  constructor
  · intro apart
    unfold Overlaps at apart
    exact strncpy_copies n 0 nonzero (fun j _ within => reads j within) (by omega) (by omega)
      (by omega)
  · intro overlaps
    obtain ⟨gap, rfl⟩ := Nat.exists_eq_add_of_le (Nat.le_of_lt overlaps.1)
    unfold Overlaps at overlaps
    have shorter : 0 < gap ∧ gap ≤ text.length := by omega
    rw [Nat.add_sub_cancel_left]
    apply strncpy_repeats gap shorter.1
    · intro k
      rw [Nat.add_mod_right]
    · intro k
      have inside : k % gap < text.length :=
        Nat.lt_of_lt_of_le (Nat.mod_lt k shorter.1) shorter.2
      rw [List.getD_eq_getElem _ _ inside]
      exact nonzero _ (List.getElem_mem inside)
    · intro j within
      rw [Nat.zero_add, Nat.mod_eq_of_lt within]
      exact reads j (by omega)
    · exact fits

end Strncpy

section Samples

def abcMemory : Memory := writeBytes (fun _ => 0) 8192 [97, 98, 99]

theorem abc_string : StringAt abcMemory 8192 [97, 98, 99] :=
  ⟨⟨by decide, by decide, by decide, by decide, by decide, by decide, rfl⟩, by decide, by decide⟩

theorem strcpy_outcome_overlapping : StrcpyOutcome abcMemory 8193 8192 [97, 98, 99] :=
  strcpy_outcome abcMemory 8193 8192 [97, 98, 99] abc_string (by decide) (by decide)

theorem strncpy_outcome_overlapping : StrncpyOutcome abcMemory 8193 8192 5 [97, 98, 99] :=
  strncpy_outcome abcMemory 8193 8192 5 [97, 98, 99] abc_string (by decide)

end Samples

end LumenOS.StringCopies
