import Mathlib.Data.Nat.Digits.Lemmas
import Mathlib.Data.List.Basic

/-!
# Positional numerals

A numeral is a list of digits, the most significant first. It is canonical
when it has at least one digit and no superfluous zero in front. In each base
the canonical numerals and the natural numbers determine one another.
-/

namespace LumenOS.Numerals

set_option autoImplicit false

/-- Reading from left to right. -/
def numeralValue (base : Nat) (digits : List Nat) : Nat :=
  digits.foldl (fun value digit => value * base + digit) 0

structure Canonical (base : Nat) (digits : List Nat) : Prop where
  nonempty : digits ≠ []
  below : ∀ digit ∈ digits, digit < base
  leading : digits.head? = some 0 → digits = [0]

def numeral (base value : Nat) : List Nat :=
  if value = 0 then [0] else (Nat.digits base value).reverse

theorem numeral_value_reverse (base : Nat) (digits : List Nat) :
    numeralValue base digits.reverse = Nat.ofDigits base digits := by
  induction digits with
  | nil => rfl
  | cons digit rest ih =>
      unfold numeralValue at ih ⊢
      rw [List.reverse_cons, List.foldl_append, ih, Nat.ofDigits_cons]
      simp only [List.foldl_cons, List.foldl_nil]
      rw [Nat.mul_comm, Nat.add_comm]

theorem numeral_zero (base : Nat) : numeral base 0 = [0] := if_pos rfl

theorem numeral_positive {base value : Nat} (positive : value ≠ 0) :
    numeral base value = (Nat.digits base value).reverse := if_neg positive

@[simp] theorem numeral_value (base value : Nat) :
    numeralValue base (numeral base value) = value := by
  by_cases zero : value = 0
  · rw [zero, numeral_zero]
    simp [numeralValue]
  · rw [numeral_positive zero, numeral_value_reverse, Nat.ofDigits_digits]

theorem numeral_canonical {base : Nat} (large : 1 < base) (value : Nat) :
    Canonical base (numeral base value) := by
  by_cases zero : value = 0
  · rw [zero, numeral_zero]
    refine ⟨by simp, ?_, fun _ => rfl⟩
    intro digit member
    rw [List.mem_singleton.mp member]
    omega
  · rw [numeral_positive zero]
    have some_digit : Nat.digits base value ≠ [] := Nat.digits_ne_nil_iff_ne_zero.mpr zero
    refine ⟨?_, ?_, ?_⟩
    · simpa using some_digit
    · intro digit member
      exact Nat.digits_lt_base large (List.mem_reverse.mp member)
    · intro leading
      rw [List.head?_reverse, List.getLast?_eq_some_getLast some_digit] at leading
      exact absurd (Option.some.inj leading) (Nat.getLast_digit_ne_zero base zero)

theorem canonical_numeral {base : Nat} (large : 1 < base) {digits : List Nat}
    (canonical : Canonical base digits) : numeral base (numeralValue base digits) = digits := by
  by_cases single : digits = [0]
  · subst single
    have value : numeralValue base [0] = 0 := by simp [numeralValue]
    rw [value, numeral_zero]
  · have last_digit : ∀ nonempty : digits.reverse ≠ [], digits.reverse.getLast nonempty ≠ 0 := by
      intro nonempty zero
      apply single
      apply canonical.leading
      rw [← zero, ← List.getLast?_eq_some_getLast nonempty, List.getLast?_reverse]
    have value : numeralValue base digits = Nat.ofDigits base digits.reverse := by
      rw [← numeral_value_reverse, List.reverse_reverse]
    have back : Nat.digits base (numeralValue base digits) = digits.reverse := by
      rw [value]
      apply Nat.digits_ofDigits base large
      · intro digit member
        exact canonical.below digit (List.mem_reverse.mp member)
      · exact last_digit
    have positive : numeralValue base digits ≠ 0 := by
      rw [← Nat.digits_ne_nil_iff_ne_zero (b := base), back]
      simpa using canonical.nonempty
    rw [numeral_positive positive, back, List.reverse_reverse]

theorem numeral_length_le {base value count : Nat} (large : 1 < base) (some_place : 0 < count)
    (bound : value < base ^ count) : (numeral base value).length ≤ count := by
  by_cases zero : value = 0
  · rw [zero, numeral_zero]
    exact some_place
  · rw [numeral_positive zero, List.length_reverse]
    exact (Nat.digits_length_le_iff large value).mpr bound

end LumenOS.Numerals
