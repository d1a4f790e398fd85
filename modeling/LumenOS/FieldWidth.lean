import LumenOS.NumericDirectives

/-!
# The width of a directive

Both formatters parse a width in front of every directive character. `%s`,
`%d`, `%i` and `%u` put spaces in front of a shorter text; the branches of
`%c`, `%x`, `%X`, `%o` and `%p` do not look at it.
-/

namespace LumenOS.FieldWidth

open LumenOS.ByteMemory LumenOS.StdioModel LumenOS.PrintfAgreement LumenOS.Numerals
open LumenOS.NumericDirectives

set_option autoImplicit false

def conversions : List Byte := ['c', 's', 'd', 'i', 'u', 'x', 'X', 'o', 'p'].map charByte

/-- The directives whose branch looks at the width. -/
def paddedDirectives : List Byte := ['s', 'd', 'i', 'u'].map charByte

def widthValue (width : List Byte) : Nat :=
  numeralValue 10 (width.map fun d => d.toNat - 48)

/-- How many characters the other directives take for their argument. -/
def unpaddedLength (c : Byte) : Arg → Nat
  | .word value =>
      if c = charByte 'c' then 1
      else if c = charByte 'o' then (numeral 8 value.toNat).length
      else 2 + (numeral 16 value.toNat).length
  | .pointer address => 2 + (numeral 16 address.toNat).length
  | .string _ => 0

section Widths

theorem fold_digits_ge (places : List Nat) (start : Nat) :
    start ≤ places.foldl (fun value place => value * 10 + place) start := by
  induction places generalizing start with
  | nil => exact Nat.le_refl start
  | cons place places ih =>
      have next := ih (start * 10 + place)
      rw [List.foldl_cons]
      omega

theorem width_step_small (value : Nat) (d : Byte) (digit : IsDigit d)
    (small : value * 10 + (d.toNat - 48) < 2 ^ 31) :
    widthStep value d = ((value * 10 + (d.toNat - 48) : Nat) : Int) := by
  have least : 48 ≤ d.toNat := digit.1
  rw [widthStep, Int.emod_eq_of_lt (by omega) (by omega)]
  omega

/-- Below half the range the width is parsed without wrapping. -/
theorem width_fold (width : List Byte) (digits : ∀ d ∈ width, IsDigit d) (start : Nat)
    (small : (width.map fun d => d.toNat - 48).foldl (fun value place => value * 10 + place)
      start < 2 ^ 31) :
    width.foldl widthStep (start : Int) =
      ((width.map fun d => d.toNat - 48).foldl (fun value place => value * 10 + place)
        start : Nat) := by
  induction width generalizing start with
  | nil => rfl
  | cons d width ih =>
      obtain ⟨first, later⟩ := List.forall_mem_cons.mp digits
      rw [List.map_cons, List.foldl_cons] at small ⊢
      have here := fold_digits_ge (width.map fun d => d.toNat - 48) (start * 10 + (d.toNat - 48))
      rw [List.foldl_cons, width_step_small start d first (by omega), ih later _ small]

theorem width_parsed (width : List Byte) (digits : ∀ d ∈ width, IsDigit d)
    (small : widthValue width < 2 ^ 31) : width.foldl widthStep 0 = (widthValue width : Int) :=
  width_fold width digits 0 small

theorem padding_nat (width length : Nat) : padding width length = width - length := by
  rw [padding]
  omega

end Widths

/-- What the two switches make of one directive with a width and without. -/
structure Directive (width : Nat) (c : Byte) (arg : Arg) (plain padded : List Byte)
    (calls : List ConsoleCall) : Prop where
  stores_plain : ∀ args, sprintfDirective 0 c (arg :: args) = some (plain, args)
  stores : ∀ args, sprintfDirective width c (arg :: args) = some (padded, args)
  prints : ∀ args, printfDirective width c (arg :: args) = some (calls, args)
  length : calls.length = padded.length
  text : padded = if c ∈ paddedDirectives then
    List.replicate (width - plain.length) (charByte ' ') ++ plain else plain
  short : c ∉ paddedDirectives → plain.length = unpaddedLength c arg

section Switches

variable (width : Nat) (value : UInt32)

theorem numeral_text_length (base : Nat) (large : 1 < base) (other : base ≠ 10) :
    (itoa (asInt value) base).length = (numeral base value.toNat).length := by
  obtain ⟨lower, upper⟩ := as_int_range value
  rw [itoa_numeral _ lower upper base large fun decimal => other decimal.1, to_size_as_int,
    numeralText, List.length_map]

theorem padded_length (text : List Byte) :
    (List.replicate (padding width text.length) (ConsoleCall.put (charByte ' ')) ++
        text.map putOrNewline).length =
      (List.replicate (padding width text.length) (charByte ' ') ++ text).length := by
  rw [List.length_append, List.length_append, List.length_replicate, List.length_replicate,
    List.length_map]

theorem no_padding (text : List Byte) :
    List.replicate (padding 0 text.length) (charByte ' ') ++ text = text := by
  rw [padding_zero]
  rfl

theorem char_directive :
    ∃ plain padded calls, Directive width (charByte 'c') (.word value) plain padded calls :=
  ⟨_, _, _, fun _ => rfl, fun _ => rfl, fun _ => rfl, rfl, rfl, fun _ => rfl⟩

theorem decimal_directive (c : Byte) (decimal : c ∈ ['d', 'i', 'u'].map charByte) :
    ∃ plain padded calls, Directive width c (.word value) plain padded calls := by
  let number := itoa (asInt value) 10
  have plain : List.replicate (padding 0 number.length) (charByte ' ') ++ number = number :=
    no_padding number
  have length : (List.replicate (padding width number.length) (ConsoleCall.put (charByte ' ')) ++
      vgaPrint number).length =
        (List.replicate (padding width number.length) (charByte ' ') ++ number).length := by
    rw [vga_print_itoa]
    exact padded_length width number
  have text : List.replicate (padding width number.length) (charByte ' ') ++ number =
      List.replicate (width - number.length) (charByte ' ') ++ number := by
    rw [padding_nat]
  simp only [List.map_cons, List.map_nil, List.mem_cons, List.not_mem_nil, or_false] at decimal
  rcases decimal with rfl | rfl | rfl
  · exact ⟨number, _, _, fun args => congrArg (fun text => some (text, args)) plain, fun _ => rfl,
      fun _ => rfl, length, text, fun missing => absurd (by decide) missing⟩
  · exact ⟨number, _, _, fun args => congrArg (fun text => some (text, args)) plain, fun _ => rfl,
      fun _ => rfl, length, text, fun missing => absurd (by decide) missing⟩
  · exact ⟨number, _, _, fun args => congrArg (fun text => some (text, args)) plain, fun _ => rfl,
      fun _ => rfl, length, text, fun missing => absurd (by decide) missing⟩

theorem octal_directive :
    ∃ plain padded calls, Directive width (charByte 'o') (.word value) plain padded calls := by
  refine ⟨_, _, _, fun _ => rfl, fun _ => rfl, fun _ => rfl, ?_, rfl, fun _ => ?_⟩
  · rw [vga_print_itoa, List.length_map]
  · exact numeral_text_length value 8 (by decide) (by decide)

theorem radix_length :
    ([charByte '0', charByte 'x'] ++ itoa (asInt value) 16).length =
      2 + (numeral 16 value.toNat).length := by
  rw [List.length_append, numeral_text_length value 16 (by decide) (by decide)]
  rfl

theorem radix_calls_length :
    (vgaPrint [charByte '0', charByte 'x'] ++ vgaPrint (itoa (asInt value) 16)).length =
      ([charByte '0', charByte 'x'] ++ itoa (asInt value) 16).length := by
  rw [radix_number, List.length_map]

theorem lower_directive :
    ∃ plain padded calls, Directive width (charByte 'x') (.word value) plain padded calls :=
  ⟨_, _, _, fun _ => rfl, fun _ => rfl, fun _ => rfl, radix_calls_length value, rfl,
    fun _ => radix_length value⟩

theorem upper_directive :
    ∃ plain padded calls, Directive width (charByte 'X') (.word value) plain padded calls := by
  refine ⟨_, _, _, fun _ => rfl, fun _ => rfl, fun _ => rfl, ?_, rfl, fun _ => ?_⟩
  · rw [uppercase_itoa]
    exact radix_calls_length value
  · rw [uppercase_itoa]
    exact radix_length value

theorem pointer_directive :
    ∃ plain padded calls, Directive width (charByte 'p') (.pointer value) plain padded calls :=
  ⟨_, _, _, fun _ => rfl, fun _ => rfl, fun _ => rfl, radix_calls_length value, rfl,
    fun _ => radix_length value⟩

theorem string_directive (s : Option (List Byte)) :
    ∃ plain padded calls, Directive width (charByte 's') (.string s) plain padded calls := by
  refine ⟨s.getD [], _, _, fun args => ?_, fun _ => rfl, fun _ => rfl, ?_, ?_, ?_⟩
  · exact congrArg (fun text => some (text, args)) (no_padding _)
  · exact padded_length width (s.getD [])
  · rw [padding_nat]
    rfl
  · exact fun missing => absurd (by decide) missing

theorem word_of_kind {arg : Arg} (kind : arg.kind = .word) : ∃ value, arg = .word value := by
  cases arg with
  | word value => exact ⟨value, rfl⟩
  | pointer address => cases kind
  | string s => cases kind

theorem directive_with_width (c : Byte) (arg : Arg) (conversion : c ∈ conversions)
    (asks : directiveKinds c = [arg.kind]) :
    ∃ plain padded calls, Directive width c arg plain padded calls := by
  have kinds : ∀ kind, directiveKinds c = [kind] → arg.kind = kind := by
    intro kind other
    rw [asks] at other
    exact List.head_eq_of_cons_eq other
  simp only [conversions, List.map_cons, List.map_nil, List.mem_cons, List.not_mem_nil,
    or_false] at conversion
  rcases conversion with rfl | rfl | rfl | rfl | rfl | rfl | rfl | rfl | rfl
  · obtain ⟨value, rfl⟩ := word_of_kind (kinds .word rfl)
    exact char_directive width value
  · have kind := kinds .string rfl
    cases arg with
    | word value => cases kind
    | pointer address => cases kind
    | string s => exact string_directive width s
  · obtain ⟨value, rfl⟩ := word_of_kind (kinds .word rfl)
    exact decimal_directive width value _ (by decide)
  · obtain ⟨value, rfl⟩ := word_of_kind (kinds .word rfl)
    exact decimal_directive width value _ (by decide)
  · obtain ⟨value, rfl⟩ := word_of_kind (kinds .word rfl)
    exact decimal_directive width value _ (by decide)
  · obtain ⟨value, rfl⟩ := word_of_kind (kinds .word rfl)
    exact lower_directive width value
  · obtain ⟨value, rfl⟩ := word_of_kind (kinds .word rfl)
    exact upper_directive width value
  · obtain ⟨value, rfl⟩ := word_of_kind (kinds .word rfl)
    exact octal_directive width value
  · have kind := kinds .pointer rfl
    cases arg with
    | word value => cases kind
    | pointer address => exact pointer_directive width address
    | string s => cases kind

end Switches

/-- Spaces in front up to the width, in what `sprintf` stores, and as many
characters on the console. -/
def PadsToWidth (width : Nat) (plain padded : List Byte) (calls : List ConsoleCall) : Prop :=
  padded = List.replicate (width - plain.length) (charByte ' ') ++ plain ∧
    calls.length = padded.length

theorem pads_to_width_iff {width : Nat} {c : Byte} {arg : Arg} {plain padded : List Byte}
    {calls : List ConsoleCall} (directive : Directive width c arg plain padded calls) :
    PadsToWidth width plain padded calls ↔
      c ∈ paddedDirectives ∨ width ≤ unpaddedLength c arg := by
  have text := directive.text
  by_cases pads : c ∈ paddedDirectives
  · rw [if_pos pads] at text
    exact iff_of_true ⟨text, directive.length⟩ (.inl pads)
  · rw [if_neg pads] at text
    rw [← directive.short pads]
    constructor
    · rintro ⟨spaces, -⟩
      have lengths := congrArg List.length spaces
      rw [text, List.length_append, List.length_replicate] at lengths
      exact .inr (by omega)
    · intro either
      have fits := either.resolve_left pads
      refine ⟨?_, directive.length⟩
      rw [text, Nat.sub_eq_zero_of_le fits]
      rfl

/-- A width below half the range is a minimum for the directives that look at
it, and for the others where it is not above the length they have anyway. -/
theorem width_is_minimum_iff (width : List Byte) (c : Byte) (arg : Arg)
    (digits : ∀ d ∈ width, IsDigit d) (small : widthValue width < 2 ^ 31)
    (conversion : c ∈ conversions) (asks : directiveKinds c = [arg.kind]) :
    ∃ plain padded calls, StoresFor (directiveFormat [] c) arg plain ∧
      StoresFor (directiveFormat width c) arg padded ∧
      PrintsFor (directiveFormat width c) arg calls ∧
      (PadsToWidth (widthValue width) plain padded calls ↔
        c ∈ paddedDirectives ∨ widthValue width ≤ unpaddedLength c arg) := by
  have known : ∀ c ∈ conversions, ¬ IsDigit c := by decide +kernel
  have parsed := width_parsed width digits small
  obtain ⟨plain, padded, calls, directive⟩ :=
    directive_with_width (widthValue width) c arg conversion asks
  refine ⟨plain, padded, calls, ?_, ?_, ?_, pads_to_width_iff directive⟩
  · exact stores_for_directive (List.forall_mem_nil _) (known c conversion) directive.stores_plain
  · apply stores_for_directive digits (known c conversion)
    rw [parsed]
    exact directive.stores
  · apply prints_for_directive digits (known c conversion)
    rw [parsed]
    exact directive.prints

/-- Two characters of a string in a width of twelve. -/
theorem width_is_minimum_string :
    ((∀ d ∈ ['1', '2'].map charByte, IsDigit d) ∧
      widthValue (['1', '2'].map charByte) < 2 ^ 31 ∧ charByte 's' ∈ conversions ∧
      directiveKinds (charByte 's') = [(Arg.string (some [104, 105])).kind]) ∧
      ∃ plain padded calls,
        StoresFor (directiveFormat [] (charByte 's')) (.string (some [104, 105])) plain ∧
        StoresFor (directiveFormat (['1', '2'].map charByte) (charByte 's'))
          (.string (some [104, 105])) padded ∧
        PrintsFor (directiveFormat (['1', '2'].map charByte) (charByte 's'))
          (.string (some [104, 105])) calls ∧
        (PadsToWidth (widthValue (['1', '2'].map charByte)) plain padded calls ↔
          charByte 's' ∈ paddedDirectives ∨ widthValue (['1', '2'].map charByte) ≤
            unpaddedLength (charByte 's') (.string (some [104, 105]))) :=
  have digits : ∀ d ∈ ['1', '2'].map charByte, IsDigit d := by decide +kernel
  have small : widthValue (['1', '2'].map charByte) < 2 ^ 31 := by decide +kernel
  have conversion : charByte 's' ∈ conversions := by decide
  ⟨⟨digits, small, conversion, rfl⟩, width_is_minimum_iff _ _ _ digits small conversion rfl⟩

/-- A hexadecimal number in a width of eight comes without a space. -/
theorem hexadecimal_width_ignored :
    StoresFor (directiveFormat [charByte '8'] (charByte 'x')) (.word 255)
        (['0', 'x', 'F', 'F'].map charByte) ∧
      ¬ ∃ plain padded calls, StoresFor (directiveFormat [] (charByte 'x')) (.word 255) plain ∧
        StoresFor (directiveFormat [charByte '8'] (charByte 'x')) (.word 255) padded ∧
        PrintsFor (directiveFormat [charByte '8'] (charByte 'x')) (.word 255) calls ∧
        PadsToWidth (widthValue [charByte '8']) plain padded calls := by
  have text : [charByte '0', charByte 'x'] ++ itoa (asInt 255) 16 =
      ['0', 'x', 'F', 'F'].map charByte := by decide +kernel
  have digits : ∀ d ∈ [charByte '8'], IsDigit d := by decide +kernel
  have widths : ∀ width, (∀ d ∈ width, IsDigit d) →
      StoresFor (directiveFormat width (charByte 'x')) (.word 255)
        (['0', 'x', 'F', 'F'].map charByte) := by
    intro width digits
    apply stores_for_directive digits (by decide)
    rw [← text]
    exact fun _ => rfl
  refine ⟨widths _ digits, ?_⟩
  rintro ⟨plain, padded, calls, storesPlain, stores, -, spaces, -⟩
  rw [stores_for_unique storesPlain (widths [] (List.forall_mem_nil _)),
    stores_for_unique stores (widths _ digits)] at spaces
  exact absurd spaces (by decide +kernel)

end LumenOS.FieldWidth
