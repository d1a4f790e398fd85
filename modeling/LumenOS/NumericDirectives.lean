import LumenOS.FormatReads
import LumenOS.Numerals

/-!
# What the numeric directives say of their argument

`itoa` produces the canonical numeral of its value in every base up to sixteen:
signed in base ten, of the unsigned word in the others. The directives differ
in the base and the `0x` in front. `%u` hands its unsigned word to the signed
conversion, which shows from half the range on.
-/

namespace LumenOS.NumericDirectives

open LumenOS.ByteMemory LumenOS.ConsoleModel LumenOS.StdioModel LumenOS.PrintfAgreement
open LumenOS.FormatReads LumenOS.Numerals

set_option autoImplicit false

section Directives

/-- The percent sign, the width and the character of a directive. -/
def directiveFormat (width : List Byte) (c : Byte) : List Byte := charByte '%' :: width ++ [c]

/-- The text `sprintf` stores for a directive with its argument, whatever of the
format and of the arguments is behind them. -/
def StoresFor (directive : List Byte) (arg : Arg) (text : List Byte) : Prop :=
  ∀ format args, sprintfLoop none (directive ++ format) (arg :: args) =
    (sprintfLoop none format args).map (text ++ ·)

/-- The calls `printf` makes for it. -/
def PrintsFor (directive : List Byte) (arg : Arg) (calls : List ConsoleCall) : Prop :=
  ∀ format args, printfLoop none (directive ++ format) (arg :: args) =
    (printfLoop none format args).map (calls ++ ·)

variable {width : List Byte} {c : Byte} {arg : Arg}
  (digits : ∀ d ∈ width, IsDigit d) (known : ¬ IsDigit c)

theorem stores_for_unique {directive text other : List Byte}
    (stores : StoresFor directive arg text) (storesOther : StoresFor directive arg other) :
    text = other := by
  have equal := (stores [] []).symm.trans (storesOther [] [])
  have texts : text ++ [] = other ++ [] := Option.some.inj equal
  rwa [List.append_nil, List.append_nil] at texts

section Loop

variable {Output : Type} (literal : Byte → Output)
  {directive : Int → Byte → List Arg → Option (List Output × List Arg)}

include digits in
theorem text_reads_width (start : Int) (rest : List Byte) (args : List Arg) :
    textLoop literal directive (some start) (width ++ rest) args =
      textLoop literal directive (some (width.foldl widthStep start)) rest args := by
  induction width generalizing start with
  | nil => rfl
  | cons d width ih =>
      obtain ⟨first, later⟩ := List.forall_mem_cons.mp digits
      rw [List.cons_append, textLoop, if_pos first, ih later, List.foldl_cons]

include digits known

theorem text_directive {output : List Output}
    (makes : ∀ args, directive (width.foldl widthStep 0) c (arg :: args) = some (output, args))
    (format : List Byte) (args : List Arg) :
    textLoop literal directive none (directiveFormat width c ++ format) (arg :: args) =
      (textLoop literal directive none format args).map (output ++ ·) := by
  have spelled : directiveFormat width c ++ format = charByte '%' :: (width ++ c :: format) := by
    simp [directiveFormat]
  rw [spelled, textLoop, if_pos rfl, text_reads_width digits, textLoop, if_neg known, makes]
  rfl

end Loop

include digits known

theorem stores_for_directive {text : List Byte}
    (stores : ∀ args, sprintfDirective (width.foldl widthStep 0) c (arg :: args) =
      some (text, args)) : StoresFor (directiveFormat width c) arg text := by
  intro format args
  rw [← text_loop_sprintf, ← text_loop_sprintf]
  exact text_directive digits known id stores format args

theorem prints_for_directive {calls : List ConsoleCall}
    (prints : ∀ args, printfDirective (width.foldl widthStep 0) c (arg :: args) =
      some (calls, args)) : PrintsFor (directiveFormat width c) arg calls := by
  intro format args
  rw [← text_loop_printf, ← text_loop_printf]
  exact text_directive digits known putOrNewline prints format args

end Directives

def digitValue (c : Byte) : Option Nat :=
  if charByte '0' ≤ c ∧ c ≤ charByte '9' then some (c.toNat - 48)
  else if charByte 'A' ≤ c ∧ c ≤ charByte 'F' then some (c.toNat - 55)
  else if charByte 'a' ≤ c ∧ c ≤ charByte 'f' then some (c.toNat - 87)
  else none

/-- The text parses in the base, to the value, and is canonical. -/
def IsNumeral (base : Nat) (text : List Byte) (value : Nat) : Prop :=
  ∃ places, text.mapM digitValue = some places ∧ Canonical base places ∧
    numeralValue base places = value

/-- A numeral in base ten, with a minus sign for negative values only. -/
def IsDecimal (text : List Byte) (value : Int) : Prop :=
  if value < 0 then ∃ rest, text = charByte '-' :: rest ∧ IsNumeral 10 rest (-value).toNat
  else IsNumeral 10 text value.toNat

def numericDirectives : List Byte := ['d', 'i', 'u', 'o', 'x', 'X', 'p'].map charByte

def numericArg (c : Byte) (value : UInt32) : Arg :=
  if c = charByte 'p' then .pointer value else .word value

/-- What the text of a numeric directive ought to be. -/
def Denotes (c : Byte) (text : List Byte) (value : UInt32) : Prop :=
  if c = charByte 'd' ∨ c = charByte 'i' then IsDecimal text (asInt value)
  else if c = charByte 'u' then IsNumeral 10 text value.toNat
  else if c = charByte 'o' then IsNumeral 8 text value.toNat
  else ∃ rest, text = [charByte '0', charByte 'x'] ++ rest ∧ IsNumeral 16 rest value.toNat

def numeralText (base value : Nat) : List Byte :=
  (numeral base value).map fun place => digits.getD place 0

theorem digit_value_digit (place : Nat) (inside : place < 16) :
    digitValue (digits.getD place 0) = some place := by
  have each : ∀ place : Fin 16, digitValue (digits.getD place 0) = some place.val := by decide
  exact each ⟨place, inside⟩

theorem digit_values (places : List Nat) (inside : ∀ place ∈ places, place < 16) :
    (places.map fun place => digits.getD place 0).mapM digitValue = some places := by
  induction places with
  | nil => rfl
  | cons place rest ih =>
      obtain ⟨first, later⟩ := List.forall_mem_cons.mp inside
      rw [List.map_cons, List.mapM_cons, digit_value_digit place first, ih later]
      rfl

theorem is_numeral_iff {base : Nat} (large : 1 < base) (text : List Byte) (value : Nat) :
    IsNumeral base text value ↔ text.mapM digitValue = some (numeral base value) := by
  constructor
  · rintro ⟨places, parsed, canonical, rfl⟩
    rw [parsed, canonical_numeral large canonical]
  · intro parsed
    exact ⟨numeral base value, parsed, numeral_canonical large value, numeral_value base value⟩

theorem is_numeral_unique {base left right : Nat} {text : List Byte}
    (numeral : IsNumeral base text left) (again : IsNumeral base text right) : left = right := by
  obtain ⟨places, parsed, -, rfl⟩ := numeral
  obtain ⟨others, parsedToo, -, rfl⟩ := again
  rw [Option.some.inj (parsed.symm.trans parsedToo)]

theorem minus_no_numeral {base value : Nat} {rest : List Byte} :
    ¬ IsNumeral base (charByte '-' :: rest) value := by
  rintro ⟨places, parsed, -⟩
  rw [List.mapM_cons] at parsed
  cases parsed

theorem is_decimal_unique {text : List Byte} {left right : Int} (decimal : IsDecimal text left)
    (again : IsDecimal text right) : left = right := by
  rw [IsDecimal] at decimal again
  split_ifs at decimal again with leftSign rightSign rightSign
  · obtain ⟨rest, rfl, numeral⟩ := decimal
    obtain ⟨others, same, numeralToo⟩ := again
    rw [← (List.cons.inj same).2] at numeralToo
    have equal := is_numeral_unique numeral numeralToo
    omega
  · obtain ⟨rest, rfl, -⟩ := decimal
    exact absurd again minus_no_numeral
  · obtain ⟨rest, rfl, -⟩ := again
    exact absurd decimal minus_no_numeral
  · have equal := is_numeral_unique decimal again
    omega

theorem numeral_text_is (base value : Nat) (large : 1 < base) (small : base ≤ 16) :
    IsNumeral base (numeralText base value) value := by
  apply (is_numeral_iff large _ value).mpr
  apply digit_values
  intro place member
  exact Nat.lt_of_lt_of_le ((numeral_canonical large value).below place member) small

/-- The loop of `itoa` produces the digits, lowest first. -/
theorem itoa_loop_digits (base rounds uval : Nat) (large : 1 < base)
    (enough : uval < base ^ rounds) :
    itoaLoop base rounds uval = (Nat.digits base uval).map fun place => digits.getD place 0 := by
  induction rounds generalizing uval with
  | zero =>
      have zero : uval = 0 := by simpa using enough
      rw [zero, Nat.digits_zero]
      rfl
  | succ rounds ih =>
      rw [itoaLoop]
      by_cases zero : uval = 0
      · rw [if_pos zero, zero, Nat.digits_zero]
        rfl
      · have smaller : uval / base < base ^ rounds := by
          rw [Nat.pow_succ] at enough
          exact Nat.div_lt_of_lt_mul (by rwa [Nat.mul_comm])
        rw [if_neg zero, ih _ smaller, Nat.digits_def' large (Nat.pos_of_ne_zero zero),
          List.map_cons]

theorem itoa_loop_numeral (base uval : Nat) (large : 1 < base) (word : uval < 2 ^ 32)
    (positive : uval ≠ 0) : (itoaLoop base 32 uval).reverse = numeralText base uval := by
  have rounds : uval < base ^ 32 := Nat.lt_of_lt_of_le word (Nat.pow_le_pow_left large 32)
  rw [itoa_loop_digits base 32 uval large rounds, numeralText, numeral_positive positive,
    List.map_reverse]

theorem to_size_word (value : Int) : toSize value < 2 ^ 32 := by
  rw [toSize]
  omega

section Words

variable (value : Int) (lower : -2 ^ 31 ≤ value) (upper : value < 2 ^ 31)

include lower upper

theorem itoa_negative (negative : value < 0) :
    itoa value 10 = charByte '-' :: numeralText 10 (-value).toNat := by
  have size : toSize (-value) = (-value).toNat := by
    rw [toSize, Int.emod_eq_of_lt (by omega) (by omega)]
  have word : (-value).toNat < 2 ^ 32 := by omega
  have positive : (-value).toNat ≠ 0 := by omega
  simp only [itoa]
  rw [if_neg (by omega : value ≠ 0), if_pos ⟨trivial, negative⟩, if_pos ⟨trivial, negative⟩, size,
    List.reverse_append, itoa_loop_numeral 10 _ (by omega) word positive]
  rfl

theorem itoa_numeral (base : Nat) (large : 1 < base) (unsigned : ¬ (base = 10 ∧ value < 0)) :
    itoa value base = numeralText base (toSize value) := by
  have word := to_size_word value
  simp only [itoa]
  rw [if_neg unsigned, if_neg unsigned]
  by_cases zero : value = 0
  · rw [if_pos zero, zero]
    have nothing : toSize 0 = 0 := rfl
    rw [nothing, numeralText, numeral_zero]
    rfl
  · have positive : toSize value ≠ 0 := by
      rw [toSize]
      omega
    rw [if_neg zero, itoa_loop_numeral base _ large word positive]

/-- Every base but ten shows the word as an unsigned number. -/
theorem itoa_unsigned (base : Nat) (large : 1 < base) (small : base ≤ 16) (other : base ≠ 10) :
    IsNumeral base (itoa value base) (toSize value) := by
  rw [itoa_numeral value lower upper base large fun decimal => other decimal.1]
  exact numeral_text_is base _ large small

theorem itoa_signed : IsDecimal (itoa value 10) value := by
  rw [IsDecimal]
  by_cases negative : value < 0
  · rw [if_pos negative, itoa_negative value lower upper negative]
    exact ⟨_, rfl, numeral_text_is 10 _ (by decide) (by decide)⟩
  · have same : value.toNat = toSize value := by
      rw [toSize, Int.emod_eq_of_lt (by omega) (by omega)]
    rw [if_neg negative,
      itoa_numeral value lower upper 10 (by decide) fun sign => negative sign.2, same]
    exact numeral_text_is 10 _ (by decide) (by decide)

end Words

section Arguments

variable (value : UInt32)

theorem as_int_cases : asInt value =
    if value.toNat < 2 ^ 31 then (value.toNat : Int) else (value.toNat : Int) - 2 ^ 32 := by
  have unfolded : asInt value = value.toBitVec.toInt := rfl
  have toNat : value.toBitVec.toNat = value.toNat := rfl
  rw [unfolded, BitVec.toInt_eq_toNat_cond, toNat]
  split_ifs <;> omega

theorem as_int_range : -2 ^ 31 ≤ asInt value ∧ asInt value < 2 ^ 31 := by
  have word : value.toNat < 2 ^ 32 := value.toNat_lt
  rw [as_int_cases]
  split_ifs <;> omega

theorem to_size_as_int : toSize (asInt value) = value.toNat := by
  have word : value.toNat < 2 ^ 32 := value.toNat_lt
  rw [as_int_cases, toSize]
  split_ifs <;> omega

theorem as_int_negative : asInt value < 0 ↔ ¬ value.toNat < 2 ^ 31 := by
  have word : value.toNat < 2 ^ 32 := value.toNat_lt
  rw [as_int_cases]
  split_ifs <;> omega

theorem itoa_word (base : Nat) (large : 1 < base) (small : base ≤ 16) (other : base ≠ 10) :
    IsNumeral base (itoa (asInt value) base) value.toNat := by
  obtain ⟨lower, upper⟩ := as_int_range value
  have unsigned := itoa_unsigned _ lower upper base large small other
  rwa [to_size_as_int] at unsigned

theorem itoa_decimal : IsDecimal (itoa (asInt value) 10) (asInt value) :=
  itoa_signed _ (as_int_range value).1 (as_int_range value).2

/-- Read as an unsigned number the signed text is right on half the range; a
minus sign is no digit. -/
theorem itoa_decimal_unsigned :
    IsNumeral 10 (itoa (asInt value) 10) value.toNat ↔ value.toNat < 2 ^ 31 := by
  obtain ⟨lower, upper⟩ := as_int_range value
  constructor
  · intro parses
    by_contra high
    rw [itoa_negative _ lower upper ((as_int_negative value).mpr high)] at parses
    exact minus_no_numeral parses
  · intro low
    have sign : ¬ asInt value < 0 := fun negative => (as_int_negative value).mp negative low
    rw [itoa_numeral _ lower upper 10 (by decide) fun decimal => sign decimal.2, to_size_as_int]
    exact numeral_text_is 10 _ (by decide) (by decide)

end Arguments

/-- The text a numeric directive stores without a width. -/
def numericText (c : Byte) (value : UInt32) : List Byte :=
  if c = charByte 'd' ∨ c = charByte 'i' ∨ c = charByte 'u' then itoa (asInt value) 10
  else if c = charByte 'o' then itoa (asInt value) 8
  else [charByte '0', charByte 'x'] ++ itoa (asInt value) 16

theorem padding_zero (length : Nat) : padding 0 length = 0 := by
  rw [padding]
  omega

theorem numeric_directive_stores (c : Byte) (numeric : c ∈ numericDirectives) (value : UInt32)
    (rest : List Arg) :
    sprintfDirective 0 c (numericArg c value :: rest) = some (numericText c value, rest) := by
  have decimal : List.replicate (padding 0 (itoa (asInt value) 10).length) (charByte ' ') ++
      itoa (asInt value) 10 = itoa (asInt value) 10 := by
    rw [padding_zero]
    rfl
  have upper := uppercase_itoa (asInt value) 16
  simp only [numericDirectives, List.map_cons, List.map_nil, List.mem_cons, List.not_mem_nil,
    or_false] at numeric
  rcases numeric with rfl | rfl | rfl | rfl | rfl | rfl | rfl
  · exact congrArg (fun text => some (text, rest)) decimal
  · exact congrArg (fun text => some (text, rest)) decimal
  · exact congrArg (fun text => some (text, rest)) decimal
  · rfl
  · rfl
  · exact congrArg (fun text => some ([charByte '0', charByte 'x'] ++ text, rest)) upper
  · rfl

theorem numeric_text_denotes_iff (c : Byte) (numeric : c ∈ numericDirectives) (value : UInt32) :
    Denotes c (numericText c value) value ↔ c ≠ charByte 'u' ∨ value.toNat < 2 ^ 31 := by
  have hexadecimal := itoa_word value 16 (by decide) (by decide) (by decide)
  simp only [numericDirectives, List.map_cons, List.map_nil, List.mem_cons, List.not_mem_nil,
    or_false] at numeric
  rcases numeric with rfl | rfl | rfl | rfl | rfl | rfl | rfl
  · exact iff_of_true (itoa_decimal value) (.inl (by decide))
  · exact iff_of_true (itoa_decimal value) (.inl (by decide))
  · have unsigned := itoa_decimal_unsigned value
    exact unsigned.trans ⟨.inr, fun either => either.resolve_left fun other => other rfl⟩
  · exact iff_of_true (itoa_word value 8 (by decide) (by decide) (by decide)) (.inl (by decide))
  · exact iff_of_true ⟨_, rfl, hexadecimal⟩ (.inl (by decide))
  · exact iff_of_true ⟨_, rfl, hexadecimal⟩ (.inl (by decide))
  · exact iff_of_true ⟨_, rfl, hexadecimal⟩ (.inl (by decide))

/-- Each numeric directive stores the canonical numeral of its argument, save
that `%u` does so only below half the range. -/
theorem numeric_directive_denotes_iff (c : Byte) (value : UInt32)
    (numeric : c ∈ numericDirectives) :
    ∃ text, StoresFor (directiveFormat [] c) (numericArg c value) text ∧
      (Denotes c text value ↔ c ≠ charByte 'u' ∨ value.toNat < 2 ^ 31) := by
  have known : ∀ c ∈ numericDirectives, ¬ IsDigit c := by decide +kernel
  refine ⟨numericText c value, ?_, numeric_text_denotes_iff c numeric value⟩
  apply stores_for_directive (List.forall_mem_nil _) (known c numeric)
  exact numeric_directive_stores c numeric value

/-- The lowest signed word as a signed decimal. -/
theorem numeric_directive_denotes_minimum :
    charByte 'd' ∈ numericDirectives ∧
      ∃ text, StoresFor (directiveFormat [] (charByte 'd'))
          (numericArg (charByte 'd') 0x80000000) text ∧
        (Denotes (charByte 'd') text 0x80000000 ↔
          charByte 'd' ≠ charByte 'u' ∨ (0x80000000 : UInt32).toNat < 2 ^ 31) :=
  have numeric : charByte 'd' ∈ numericDirectives := by decide
  ⟨numeric, numeric_directive_denotes_iff _ _ numeric⟩

/-- The largest unsigned word comes out as minus one. -/
theorem unsigned_directive_negative :
    sprintfStored (directiveFormat [] (charByte 'u')) [.word 0xFFFFFFFF] =
        some [charByte '-', charByte '1'] ∧
      StoresFor (directiveFormat [] (charByte 'u')) (.word 0xFFFFFFFF)
        [charByte '-', charByte '1'] ∧
      ¬ Denotes (charByte 'u') [charByte '-', charByte '1'] 0xFFFFFFFF := by
  have number : numericText (charByte 'u') 0xFFFFFFFF = [charByte '-', charByte '1'] := by
    decide +kernel
  refine ⟨by decide +kernel, ?_, ?_⟩
  · apply stores_for_directive (List.forall_mem_nil _) (by decide)
    rw [← number]
    exact numeric_directive_stores (charByte 'u') (by decide) 0xFFFFFFFF
  · exact minus_no_numeral

end LumenOS.NumericDirectives
