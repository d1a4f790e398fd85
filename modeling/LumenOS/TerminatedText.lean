import LumenOS.ByteMemory

/-!
# Text with a terminator

A content is read byte by byte at growing places. Text in it is a list of
non-zero bytes with a zero behind them, so the place where a text starts
determines the text.
-/

namespace LumenOS.TerminatedText

open LumenOS.ByteMemory

set_option autoImplicit false

/-- From the given place on the content spells the text and then the terminator. -/
def Terminated (content : Nat → Byte) : Nat → List Byte → Prop
  | start, [] => content start = 0
  | start, c :: rest => content start = c ∧ c ≠ 0 ∧ Terminated content (start + 1) rest

section Places

variable {content : Nat → Byte} {start : Nat} {text : List Byte}

theorem terminated_no_zero (spelled : Terminated content start text) : ∀ c ∈ text, c ≠ 0 := by
  induction text generalizing start with
  | nil => simp
  | cons c rest ih =>
      obtain ⟨-, nonzero, later⟩ := spelled
      exact List.forall_mem_cons.mpr ⟨nonzero, ih later⟩

theorem terminated_get (spelled : Terminated content start text) (i : Nat)
    (inside : i < text.length) : content (start + i) = text[i] := by
  induction text generalizing start i with
  | nil => simp at inside
  | cons c rest ih =>
      obtain ⟨here, -, later⟩ := spelled
      cases i with
      | zero => exact here
      | succ i =>
          have next := ih later i (by simpa using inside)
          rwa [Nat.add_assoc, Nat.add_comm 1 i] at next

theorem terminated_end (spelled : Terminated content start text) :
    content (start + text.length) = 0 := by
  induction text generalizing start with
  | nil => exact spelled
  | cons c rest ih =>
      have next := ih spelled.2.2
      rwa [Nat.add_assoc, Nat.add_comm 1] at next

theorem terminated_drop (spelled : Terminated content start text) (count : Nat)
    (within : count ≤ text.length) : Terminated content (start + count) (text.drop count) := by
  induction count generalizing start text with
  | zero => exact spelled
  | succ count ih =>
      cases text with
      | nil => simp at within
      | cons c rest =>
          have next := ih spelled.2.2 (by simpa using within)
          rwa [Nat.add_assoc, Nat.add_comm 1] at next

theorem terminated_congr {other : Nat → Byte} {place : Nat}
    (spelled : Terminated content start text)
    (same : ∀ i, i ≤ text.length → other (place + i) = content (start + i)) :
    Terminated other place text := by
  induction text generalizing start place with
  | nil => exact (same 0 (Nat.le_refl 0)).trans spelled
  | cons c rest ih =>
      obtain ⟨here, nonzero, later⟩ := spelled
      refine ⟨(same 0 (Nat.zero_le _)).trans here, nonzero, ih later ?_⟩
      intro i within
      have shifted := same (i + 1) (by simpa using within)
      rwa [Nat.add_comm i, ← Nat.add_assoc, ← Nat.add_assoc] at shifted

theorem terminated_of_get (symbols : ∀ i c, text[i]? = some c → content (start + i) = c ∧ c ≠ 0)
    (terminator : content (start + text.length) = 0) : Terminated content start text := by
  induction text generalizing start with
  | nil => exact terminator
  | cons c rest ih =>
      obtain ⟨here, nonzero⟩ := symbols 0 c rfl
      refine ⟨here, nonzero, ih ?_ ?_⟩
      · intro i d symbol
        have shifted := symbols (i + 1) d symbol
        rwa [Nat.add_comm i, ← Nat.add_assoc] at shifted
      · rwa [List.length_cons, Nat.add_comm rest.length, ← Nat.add_assoc] at terminator

end Places

theorem written_terminated (memory : Memory) (start : Nat) (text : List Byte)
    (nonzero : ∀ c ∈ text, c ≠ 0) (short : text.length < 2 ^ 32) :
    Terminated (readByte (writeBytes memory start (text ++ [0]))) start text := by
  have written := write_bytes_inside memory start (text ++ [0])
  simp only [List.length_append, List.length_singleton] at written
  apply terminated_of_get
  · intro i c symbol
    obtain ⟨inside, equal⟩ := List.getElem?_eq_some_iff.mp symbol
    constructor
    · rw [written i (by omega) (by omega), List.getElem_append_left inside, equal]
    · rw [← equal]
      exact nonzero _ (List.getElem_mem inside)
  · rw [written text.length (by omega) (by omega), List.getElem_concat_length rfl]

/-- A string of a program: it begins at no null pointer and does not reach the
end of the address space. -/
structure StringAt (memory : Memory) (address : Nat) (text : List Byte) : Prop where
  spelled : Terminated (readByte memory) address text
  not_null : 0 < address
  fits : address + text.length < 2 ^ 32

end LumenOS.TerminatedText
