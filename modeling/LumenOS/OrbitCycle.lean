import Mathlib.Order.Preorder.Finite
import Mathlib.Logic.Function.Iterate

/-!
# Walks that stay in a finite set

A deterministic walk leaves a finite set or comes back to where it was. The
second is visible after finitely many steps, which makes it a condition that
can be checked.
-/

namespace LumenOS.OrbitCycle

set_option autoImplicit false

variable {Place : Type*} (next : Place → Place) (inside : Place → Prop) (start : Place)

def Revisits : Prop :=
  ∃ i j, i < j ∧ next^[i] start = next^[j] start ∧ ∀ m, m < j → inside (next^[m] start)

variable {next inside start}

/-- A walk that meets a place twice goes round for ever. -/
theorem revisits_stays (revisits : Revisits next inside start) (m : Nat) :
    inside (next^[m] start) := by
  obtain ⟨i, j, earlier, same, within⟩ := revisits
  induction m using Nat.strong_induction_on with
  | _ m ih =>
      by_cases first : m < j
      · exact within m first
      · have split : m = (m - j) + j := by omega
        have back : next^[m] start = next^[m - j + i] start := by
          rw [split, Function.iterate_add_apply, ← same, ← Function.iterate_add_apply,
            Nat.add_sub_cancel]
        rw [back]
        exact ih (m - j + i) (by omega)

theorem leaves_iff_not_revisits (finite : {place | inside place}.Finite) :
    (∃ m, ¬ inside (next^[m] start)) ↔ ¬ Revisits next inside start := by
  constructor
  · rintro ⟨m, left⟩ revisits
    exact left (revisits_stays revisits m)
  · intro fresh
    by_contra never
    have stays : ∀ m, inside (next^[m] start) := by
      intro m
      by_contra left
      exact never ⟨m, left⟩
    obtain ⟨i, j, earlier, same⟩ := finite.exists_lt_map_eq_of_forall_mem stays
    exact fresh ⟨i, j, earlier, same, fun m _ => stays m⟩

end LumenOS.OrbitCycle
