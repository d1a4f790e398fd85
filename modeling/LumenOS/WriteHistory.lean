import LumenOS.RecordTable

/-!
# Places that keep the last write

A write puts values at consecutive places. What a place holds after a history
of writes is what the last write over it put there, or what it held at first.
A range of memory mirrors a history when its bytes are the ones the history
leaves.
-/

namespace LumenOS.WriteHistory

open LumenOS.ByteMemory LumenOS.RecordTable LumenOS.StepRuns

set_option autoImplicit false

section History

variable {Value : Type*}

structure Write (Value : Type*) where
  start : Nat
  content : List Value

def Write.Covers (write : Write Value) (place : Nat) : Prop :=
  write.start ≤ place ∧ place < write.start + write.content.length

instance (write : Write Value) (place : Nat) : Decidable (write.Covers place) :=
  inferInstanceAs (Decidable (_ ∧ _))

/-- What a place holds after the writes, the last one at the end. -/
def current (initial : Nat → Value) (history : List (Write Value)) (place : Nat) : Value :=
  match lastWhere (fun write => decide (write.Covers place)) history with
  | none => initial place
  | some write => write.content.getD (place - write.start) (initial place)

variable (initial : Nat → Value) (history : List (Write Value)) (write : Write Value)

theorem current_missed {place : Nat} (missed : ¬ write.Covers place) :
    current initial (history ++ [write]) place = current initial history place := by
  unfold current
  rw [last_where_concat, decide_eq_false missed]
  rfl

theorem current_covered (i : Nat) (inside : i < write.content.length) :
    current initial (history ++ [write]) (write.start + i) =
      write.content.get ⟨i, inside⟩ := by
  have covers : write.Covers (write.start + i) :=
    ⟨Nat.le_add_right _ _, Nat.add_lt_add_left inside _⟩
  unfold current
  rw [last_where_concat, decide_eq_true covers, if_pos rfl]
  simp [inside]

end History

section Bytes

variable {initial : Nat → Byte} {history : List (Write Byte)}

/-- The bytes from `base` on are those the history leaves. -/
def Mirrors (memory : Memory) (base extent : Nat) (initial : Nat → Byte)
    (history : List (Write Byte)) : Prop :=
  ∀ i, i < extent → readByte memory (base + i) = current initial history i

theorem mirrors_nothing (memory : Memory) (base extent : Nat) :
    Mirrors memory base extent (fun i => readByte memory (base + i)) [] := fun _ _ => rfl

variable {memory : Memory} {base extent : Nat}

theorem mirrors_read (mirrors : Mirrors memory base extent initial history) (start count : Nat)
    (inside : start + count ≤ extent) :
    readBytes memory (base + start) count = window (current initial history) start count := by
  rw [read_bytes_window]
  apply window_congr
  intro i bound
  rw [Nat.zero_add, Nat.add_assoc]
  exact mirrors (start + i) (by omega)

theorem mirrors_write (mirrors : Mirrors memory base extent initial history)
    (fits : base + extent ≤ 2 ^ 32) (write : Write Byte)
    (inside : write.start + write.content.length ≤ extent) :
    Mirrors (writeBytes memory (base + write.start) write.content) base extent initial
      (history ++ [write]) := by
  intro i bound
  by_cases covers : write.Covers i
  · obtain ⟨offset, rfl⟩ := Nat.exists_eq_add_of_le covers.1
    have part : offset < write.content.length := Nat.lt_of_add_lt_add_left covers.2
    rw [current_covered initial history write offset part, ← Nat.add_assoc]
    exact write_bytes_inside memory _ write.content offset part (by omega)
  · rw [current_missed initial history write covers, ← mirrors i bound]
    apply write_bytes_outside
    intro j jBound
    unfold Write.Covers at covers
    unfold u32
    omega

theorem mirrors_elsewhere {after : Memory} {other count : Nat}
    (mirrors : Mirrors memory base extent initial history)
    (changed : ChangesWithin memory after other count) (apart : Disjoint base extent other count) :
    Mirrors after base extent initial history := by
  intro i bound
  rw [changed (base + i) fun j jBound => apart i j bound jBound]
  exact mirrors i bound

end Bytes

end LumenOS.WriteHistory
