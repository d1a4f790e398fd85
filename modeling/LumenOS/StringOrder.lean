import LumenOS.StringModel
import LumenOS.TerminatedText
import Mathlib.Data.List.Lex
import Mathlib.Order.Nat

/-!
# The order of the comparison functions

`strcmp`, `strncmp` and `memcmp` of `stdlib/string.c`. The three loops stop at
different places, but all return the difference of two bytes at the first place
where their arguments differ. Its sign is that of the lexicographic order of the
bytes as unsigned numbers: a terminator is smaller than every byte of a text.
-/

namespace LumenOS.StringOrder

open LumenOS.ByteMemory LumenOS.StringModel LumenOS.TerminatedText

set_option autoImplicit false

/-- `(unsigned char)s1[i] - (unsigned char)s2[i]` in an `int`. -/
def byteDifference (left right : Byte) : Int := (left.toNat : Int) - (right.toNat : Int)

def strcmp (memory : Memory) : Nat → Nat → Nat → Option Int
  | 0, _, _ => none
  | rounds + 1, s1, s2 =>
      if readByte memory s1 ≠ 0 ∧ readByte memory s1 = readByte memory s2 then
        strcmp memory rounds (u32 (s1 + 1)) (u32 (s2 + 1))
      else some (byteDifference (readByte memory s1) (readByte memory s2))

/-- The loop of `strncmp` with the number of rounds before `n` and the index. -/
def strncmpFrom (memory : Memory) (s1 s2 : Nat) : Nat → Nat → Int
  | 0, _ => 0
  | count + 1, i =>
      if readByte memory (s1 + i) ≠ readByte memory (s2 + i) ∨ readByte memory (s1 + i) = 0 ∨
          readByte memory (s2 + i) = 0 then
        byteDifference (readByte memory (s1 + i)) (readByte memory (s2 + i))
      else strncmpFrom memory s1 s2 count (i + 1)

def strncmp (memory : Memory) (s1 s2 n : Nat) : Int := strncmpFrom memory s1 s2 n 0

/-- The loop of `memcmp` over two ranges of memory. -/
def memcmpFrom (memory : Memory) (s1 s2 : Nat) : Nat → Nat → Int
  | 0, _ => 0
  | count + 1, i =>
      if readByte memory (s1 + i) ≠ readByte memory (s2 + i) then
        byteDifference (readByte memory (s1 + i)) (readByte memory (s2 + i))
      else memcmpFrom memory s1 s2 count (i + 1)

def memcmpAt (memory : Memory) (s1 s2 n : Nat) : Int := memcmpFrom memory s1 s2 n 0

/-- The difference at the first place where two texts differ, the end of a text
counted as zero. -/
def firstDifference : List Byte → List Byte → Int
  | [], [] => 0
  | [], right :: _ => byteDifference 0 right
  | left :: _, [] => byteDifference left 0
  | left :: lefts, right :: rights =>
      if left = right then firstDifference lefts rights else byteDifference left right

def unsigned (bytes : List Byte) : List Nat := bytes.map UInt8.toNat

/-- The sign of the number tells the lexicographic order of the bytes. -/
structure HasSign (number : Int) (left right : List Byte) : Prop where
  below : number < 0 ↔ unsigned left < unsigned right
  same : number = 0 ↔ left = right
  above : 0 < number ↔ unsigned right < unsigned left

def Returns (memory : Memory) (s1 s2 : Nat) (number : Int) : Prop :=
  ∃ enough, ∀ rounds, enough ≤ rounds → strcmp memory rounds s1 s2 = some number

section Signs

variable {left right : Byte} {lefts rights third : List Byte} {number other whole : Int}

theorem unsigned_cons_lt : unsigned (left :: lefts) < unsigned (right :: rights) ↔
    left.toNat < right.toNat ∨ left = right ∧ unsigned lefts < unsigned rights := by
  simp only [unsigned, List.map_cons, List.cons_lt_cons_iff, UInt8.toNat_inj]

theorem difference_swap (left right : Byte) :
    byteDifference left right = -byteDifference right left := by
  simp only [byteDifference]
  omega

theorem sign_nil : HasSign 0 [] [] := by
  constructor <;> simp

theorem sign_swap (sign : HasSign number lefts rights) : HasSign (-number) rights lefts := by
  constructor
  · rw [← sign.above]
    omega
  · rw [@eq_comm _ rights lefts, ← sign.same]
    omega
  · rw [← sign.below]
    omega

theorem sign_shorter (nonzero : right ≠ 0) :
    HasSign (byteDifference 0 right) [] (right :: rights) := by
  have positive : right.toNat ≠ 0 := fun zero => nonzero (UInt8.toNat_inj.mp zero)
  have zero : (0 : Byte).toNat = 0 := rfl
  constructor
  · simp only [byteDifference, zero, unsigned, List.map_cons, List.map_nil, List.nil_lt_cons,
      iff_true]
    omega
  · simp only [byteDifference, zero, List.nil_eq, reduceCtorEq, iff_false]
    omega
  · simp only [byteDifference, zero, unsigned, List.map_cons, List.map_nil, List.not_lt_nil,
      iff_false]
    omega

theorem sign_longer (nonzero : left ≠ 0) :
    HasSign (byteDifference left 0) (left :: lefts) [] := by
  rw [difference_swap]
  exact sign_swap (sign_shorter nonzero)

theorem sign_cons (later : HasSign number lefts rights) :
    HasSign (if left = right then number else byteDifference left right) (left :: lefts)
      (right :: rights) := by
  by_cases equal : left = right
  · rw [if_pos equal, equal]
    constructor
    · simpa [unsigned_cons_lt] using later.below
    · simpa using later.same
    · simpa [unsigned_cons_lt] using later.above
  · have apart : left.toNat ≠ right.toNat := fun same => equal (UInt8.toNat_inj.mp same)
    rw [if_neg equal]
    constructor
    · simp only [unsigned_cons_lt, byteDifference, equal, false_and, or_false]
      omega
    · simp only [byteDifference, List.cons.injEq, equal, false_and, iff_false]
      omega
    · simp only [unsigned_cons_lt, byteDifference, Ne.symm equal, false_and, or_false]
      omega

theorem sign_unique (sign : HasSign number lefts rights) (again : HasSign other lefts rights) :
    number.sign = other.sign := by
  have below := sign.below.trans again.below.symm
  have same := sign.same.trans again.same.symm
  by_cases zero : number = 0
  · rw [zero, same.mp zero]
  · by_cases negative : number < 0
    · rw [Int.sign_eq_neg_one_of_neg negative, Int.sign_eq_neg_one_of_neg (below.mp negative)]
    · rw [Int.sign_eq_one_of_pos (by omega), Int.sign_eq_one_of_pos (by omega)]

/-- No number above zero: the texts are in order. -/
theorem sign_ordered (sign : HasSign number lefts rights) :
    number ≤ 0 ↔ ¬ unsigned rights < unsigned lefts := by
  rw [← sign.above]
  omega

theorem sign_trans (first : HasSign number lefts rights) (next : HasSign other rights third)
    (both : HasSign whole lefts third) :
    (number ≤ 0 → other ≤ 0 → whole ≤ 0) ∧ (number < 0 → other ≤ 0 → whole < 0) ∧
      (number ≤ 0 → other < 0 → whole < 0) := by
  rw [sign_ordered first, sign_ordered next, sign_ordered both, first.below, next.below,
    both.below]
  simp only [not_lt]
  constructor
  · exact le_trans
  constructor
  · exact lt_of_lt_of_le
  · exact lt_of_le_of_lt

end Signs

/-- Neither text has a zero byte, or the zero bytes end neither. -/
def Comparable (lefts rights : List Byte) : Prop :=
  ((∀ c ∈ lefts, c ≠ 0) ∧ ∀ c ∈ rights, c ≠ 0) ∨ lefts.length = rights.length

theorem first_difference_sign (lefts rights : List Byte) (comparable : Comparable lefts rights) :
    HasSign (firstDifference lefts rights) lefts rights := by
  induction lefts generalizing rights with
  | nil =>
      cases rights with
      | nil => exact sign_nil
      | cons right rights =>
          apply sign_shorter
          simp [Comparable] at comparable
          exact comparable.1
  | cons left lefts ih =>
      cases rights with
      | nil =>
          apply sign_longer
          simp [Comparable] at comparable
          exact comparable.1
      | cons right rights =>
          apply sign_cons
          apply ih
          simp only [Comparable, List.forall_mem_cons, List.length_cons, Nat.add_right_cancel_iff]
            at comparable
          exact comparable.imp (fun nonzero => ⟨nonzero.1.2, nonzero.2.2⟩) id

section Loops

variable {memory : Memory}

/-- A text is spelled from the wrapped place as from the place itself. -/
theorem terminated_wrapped {start : Nat} {text : List Byte}
    (spelled : Terminated (readByte memory) start text) :
    Terminated (readByte memory) (u32 start) text := by
  apply terminated_congr spelled
  intro i within
  simp [readByte, u32]

section Texts

variable {a b : Nat} {lefts rights : List Byte}
  (leftText : Terminated (readByte memory) a lefts)
  (rightText : Terminated (readByte memory) b rights)

include leftText rightText

/-- One round: either both texts go on with the same byte, or the bytes the loops
look at are those of the first difference, however much of the texts is looked at. -/
theorem texts_step :
    (∃ c laterLefts laterRights, lefts = c :: laterLefts ∧ rights = c :: laterRights ∧ c ≠ 0 ∧
      readByte memory a = c ∧ readByte memory b = c ∧
      Terminated (readByte memory) (a + 1) laterLefts ∧
      Terminated (readByte memory) (b + 1) laterRights) ∨
    ((readByte memory a ≠ readByte memory b ∨ readByte memory a = 0) ∧
      ∀ count, firstDifference (lefts.take (count + 1)) (rights.take (count + 1)) =
        byteDifference (readByte memory a) (readByte memory b)) := by
  cases lefts with
  | nil =>
      right
      have ended : readByte memory a = 0 := leftText
      refine ⟨.inr ended, fun count => ?_⟩
      cases rights with
      | nil =>
          have endedToo : readByte memory b = 0 := rightText
          simp [ended, endedToo, firstDifference, byteDifference]
      | cons right rights => simp [ended, rightText.1, firstDifference]
  | cons left lefts =>
      obtain ⟨here, nonzero, later⟩ := leftText
      cases rights with
      | nil =>
          right
          have ended : readByte memory b = 0 := rightText
          simp [here, nonzero, ended, firstDifference]
      | cons right rights =>
          obtain ⟨hereToo, -, laterToo⟩ := rightText
          by_cases equal : left = right
          · left
            rw [← equal] at hereToo ⊢
            exact ⟨left, lefts, rights, rfl, rfl, nonzero, here, hereToo, later, laterToo⟩
          · right
            simp [here, hereToo, equal, firstDifference]

theorem strcmp_first_difference (rounds : Nat) (enough : lefts.length < rounds) :
    strcmp memory rounds a b = some (firstDifference lefts rights) := by
  induction rounds generalizing a b lefts rights with
  | zero => exact absurd enough (Nat.not_lt_zero _)
  | succ rounds ih =>
      rw [strcmp]
      rcases texts_step leftText rightText with
        ⟨c, laterLefts, laterRights, rfl, rfl, nonzero, here, hereToo, later, laterToo⟩ |
        ⟨stop, ends⟩
      · rw [here, hereToo, if_pos ⟨nonzero, rfl⟩, firstDifference, if_pos rfl]
        exact ih (terminated_wrapped later) (terminated_wrapped laterToo)
          (Nat.lt_of_succ_lt_succ enough)
      · have looked := ends (lefts.length + rights.length)
        rw [List.take_of_length_le (by omega), List.take_of_length_le (by omega)] at looked
        have stops : ¬ (readByte memory a ≠ 0 ∧ readByte memory a = readByte memory b) := by
          rintro ⟨nonzero, same⟩
          exact stop.elim (absurd same) nonzero
        rw [if_neg stops, looked]

end Texts

theorem strncmp_first_difference {a b : Nat} {lefts rights : List Byte} (count i : Nat)
    (leftText : Terminated (readByte memory) (a + i) lefts)
    (rightText : Terminated (readByte memory) (b + i) rights) :
    strncmpFrom memory a b count i =
      firstDifference (lefts.take count) (rights.take count) := by
  induction count generalizing i lefts rights with
  | zero => rfl
  | succ count ih =>
      rw [strncmpFrom]
      rcases texts_step leftText rightText with
        ⟨c, laterLefts, laterRights, rfl, rfl, nonzero, here, hereToo, later, laterToo⟩ |
        ⟨stop, ends⟩
      · rw [here, hereToo, if_neg (by simp [nonzero]), List.take_succ_cons, List.take_succ_cons,
          firstDifference, if_pos rfl]
        exact ih (i + 1) later laterToo
      · rw [if_pos (stop.imp_right .inl), ends count]

theorem memcmp_from_bytes (s1 s2 count i : Nat) :
    memcmpFrom memory s1 s2 count i =
      memcmp (readBytes memory (s1 + i) count) (readBytes memory (s2 + i) count) := by
  induction count generalizing i with
  | zero => rfl
  | succ count ih =>
      rw [memcmpFrom, ih]
      rfl

theorem memcmp_first_difference (lefts rights : List Byte)
    (same : lefts.length = rights.length) : memcmp lefts rights = firstDifference lefts rights := by
  induction lefts generalizing rights with
  | nil =>
      rw [List.length_eq_zero_iff.mp same.symm]
      rfl
  | cons left lefts ih =>
      cases rights with
      | nil => simp at same
      | cons right rights =>
          rw [memcmp, firstDifference, ih rights (Nat.succ.inj same)]
          by_cases equal : left = right
          · rw [if_neg (not_not_intro equal), if_pos equal]
          · rw [if_pos equal, if_neg equal]
            rfl

end Loops

section Order

variable {memory : Memory} {a b : Nat} {left right : List Byte}
  (leftText : Terminated (readByte memory) a left)
  (rightText : Terminated (readByte memory) b right)

include leftText rightText

theorem strcmp_returns : Returns memory a b (firstDifference left right) :=
  ⟨left.length + 1, strcmp_first_difference leftText rightText⟩

theorem strcmp_sign : HasSign (firstDifference left right) left right := by
  apply first_difference_sign
  exact .inl ⟨terminated_no_zero leftText, terminated_no_zero rightText⟩

theorem strncmp_sign (n : Nat) : HasSign (strncmp memory a b n) (left.take n) (right.take n) := by
  rw [strncmp, strncmp_first_difference n 0 leftText rightText]
  apply first_difference_sign
  left
  constructor
  · intro c member
    exact terminated_no_zero leftText c (List.mem_of_mem_take member)
  · intro c member
    exact terminated_no_zero rightText c (List.mem_of_mem_take member)

end Order

theorem memcmp_sign (memory : Memory) (s1 s2 m : Nat) :
    HasSign (memcmpAt memory s1 s2 m) (readBytes memory s1 m) (readBytes memory s2 m) := by
  have same : (readBytes memory s1 m).length = (readBytes memory s2 m).length := by simp
  rw [memcmpAt, memcmp_from_bytes, Nat.add_zero, Nat.add_zero, memcmp_first_difference _ _ same]
  exact first_difference_sign _ _ (.inr same)

/-- What the comparisons of two strings say, the strings being at `a` and at `b`:
`strcmp` orders all strings by their bytes, `strncmp` orders them by as many of
the first bytes as it is given. -/
structure OneOrder (memory : Memory) (a b : Nat) (left right : List Byte) (order : Int) :
    Prop where
  returns : Returns memory a b order
  lexicographic : HasSign order left right
  antisymmetric : ∃ back, Returns memory b a back ∧ back.sign = -order.sign
  transitive : ∀ c third, Terminated (readByte memory) c third →
    ∃ next whole, Returns memory b c next ∧ Returns memory a c whole ∧
      (order ≤ 0 → next ≤ 0 → whole ≤ 0) ∧ (order < 0 → next ≤ 0 → whole < 0) ∧
      (order ≤ 0 → next < 0 → whole < 0)
  shortened : ∀ n other s1 s2, Terminated (readByte other) s1 (left.take n) →
    Terminated (readByte other) s2 (right.take n) →
    ∃ shorter, Returns other s1 s2 shorter ∧ (strncmp memory a b n).sign = shorter.sign
  whole : ∀ n, left.length < n → right.length < n → (strncmp memory a b n).sign = order.sign

/-- The three functions compare by one order. -/
theorem comparisons_agree (memory : Memory) (a b : Nat) (left right : List Byte)
    (leftText : Terminated (readByte memory) a left)
    (rightText : Terminated (readByte memory) b right) :
    (∃ order, OneOrder memory a b left right order) ∧
      ∀ s1 s2 m,
        HasSign (memcmpAt memory s1 s2 m) (readBytes memory s1 m) (readBytes memory s2 m) := by
  constructor
  · refine ⟨firstDifference left right, ?_⟩
    have lexicographic := strcmp_sign leftText rightText
    constructor
    · exact strcmp_returns leftText rightText
    · exact lexicographic
    · refine ⟨_, strcmp_returns rightText leftText, ?_⟩
      rw [← Int.sign_neg]
      exact sign_unique (strcmp_sign rightText leftText) (sign_swap lexicographic)
    · intro c third thirdText
      refine ⟨_, _, strcmp_returns rightText thirdText, strcmp_returns leftText thirdText, ?_⟩
      exact sign_trans lexicographic (strcmp_sign rightText thirdText)
        (strcmp_sign leftText thirdText)
    · intro n other s1 s2 leftCut rightCut
      refine ⟨_, strcmp_returns leftCut rightCut, ?_⟩
      exact sign_unique (strncmp_sign leftText rightText n) (strcmp_sign leftCut rightCut)
    · intro n leftShort rightShort
      have sign := strncmp_sign leftText rightText n
      rw [List.take_of_length_le (Nat.le_of_lt leftShort),
        List.take_of_length_le (Nat.le_of_lt rightShort)] at sign
      exact sign_unique sign lexicographic
  · exact memcmp_sign memory

/-- The last bytes differ, one of them above the signed range. -/
theorem comparisons_agree_unsigned :
    ∃ order, 0 < order ∧
      OneOrder (writeBytes (writeBytes (fun _ => 0) 10 [65, 200]) 20 [65, 100]) 10 20 [65, 200]
        [65, 100] order := by
  have agree := comparisons_agree (writeBytes (writeBytes (fun _ => 0) 10 [65, 200]) 20 [65, 100])
    10 20 [65, 200] [65, 100] ⟨rfl, by decide, rfl, by decide, rfl⟩
    ⟨rfl, by decide, rfl, by decide, rfl⟩
  obtain ⟨order, compared⟩ := agree.1
  exact ⟨order, compared.lexicographic.above.mpr (by decide), compared⟩

end LumenOS.StringOrder
