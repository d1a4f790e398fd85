import LumenOS.StdioModel

/-!
# Where `printf` and `sprintf` agree

The two interpreters ask for the same arguments and take the same branches.
They differ in one place: a directive character that neither knows is copied
behind the percent sign, and `printf` puts it on the screen as a cell even
where it is a line break.
-/

namespace LumenOS.PrintfAgreement

open LumenOS.ByteMemory LumenOS.ConsoleModel LumenOS.StdioModel

set_option autoImplicit false

def wordDirectives : List Byte := ['c', 'd', 'i', 'u', 'x', 'X', 'o'].map charByte

def directiveKinds (c : Byte) : List ArgKind :=
  if c ∈ wordDirectives then [.word]
  else if c = charByte 's' then [.string]
  else if c = charByte 'p' then [.pointer]
  else []

/-- The arguments a format asks for, in order, from inside or outside a
directive; none where it ends inside one. -/
def requestedKinds : Bool → List Byte → Option (List ArgKind)
  | false, [] => some []
  | true, [] => none
  | false, c :: format => requestedKinds (decide (c = charByte '%')) format
  | true, c :: format =>
      if IsDigit c then requestedKinds true format
      else (requestedKinds false format).map (directiveKinds c ++ ·)

/-- Every percent sign and its width are followed by a character, and the
arguments begin with those the format asks for. -/
def Matches (format : List Byte) (args : List Arg) : Prop :=
  ∃ kinds, requestedKinds false format = some kinds ∧ kinds <+: args.map Arg.kind

/-- No percent sign with its width is followed by a line break. -/
def NoLineBreakDirective : Bool → List Byte → Prop
  | _, [] => True
  | false, c :: format => NoLineBreakDirective (decide (c = charByte '%')) format
  | true, c :: format =>
      if IsDigit c then NoLineBreakDirective true format
      else ¬ IsLineBreak c ∧ NoLineBreakDirective false format

def Plain (c : Byte) : Prop := ¬ IsLineBreak c ∧ c < charByte 'a'

theorem digit_plain (place : Nat) : Plain (digits.getD place 0) := by
  by_cases inside : place < 16
  · have each : ∀ place : Fin 16, ¬ IsLineBreak (digits.getD place 0) ∧
        digits.getD place 0 < charByte 'a' := by decide
    exact each ⟨place, inside⟩
  · have beyond : digits.getD place 0 = 0 := by
      rw [List.getD_eq_getElem?_getD, List.getElem?_eq_none]
      · rfl
      · change 16 ≤ place
        omega
    rw [beyond]
    exact ⟨by decide, by decide⟩

theorem itoa_loop_plain (base rounds uval : Nat) (c : Byte)
    (member : c ∈ itoaLoop base rounds uval) : Plain c := by
  induction rounds generalizing uval with
  | zero => cases member
  | succ rounds ih =>
      rw [itoaLoop] at member
      split_ifs at member
      · cases member
      · rcases List.mem_cons.mp member with rfl | rest
        · exact digit_plain _
        · exact ih _ rest

theorem itoa_loop_length (base rounds uval : Nat) :
    (itoaLoop base rounds uval).length ≤ rounds := by
  induction rounds generalizing uval with
  | zero => exact Nat.le_refl 0
  | succ rounds ih =>
      rw [itoaLoop]
      split_ifs
      · exact Nat.zero_le _
      · exact Nat.succ_le_succ (ih _)

theorem itoa_length (value : Int) (base : Nat) : (itoa value base).length ≤ 33 := by
  have rounds := itoa_loop_length base 32
    (toSize (if base = 10 ∧ value < 0 then -value else value))
  simp only [itoa]
  by_cases zero : value = 0
  · rw [if_pos zero]
    decide
  · rw [if_neg zero, List.length_reverse]
    by_cases sign : base = 10 ∧ value < 0
    · rw [if_pos sign, List.length_append, List.length_singleton]
      omega
    · rw [if_neg sign]
      omega

theorem itoa_plain (value : Int) (base : Nat) (c : Byte) (member : c ∈ itoa value base) :
    Plain c := by
  simp only [itoa] at member
  split_ifs at member
  · rw [List.mem_singleton.mp member]
    exact ⟨by decide, by decide⟩
  · rcases List.mem_append.mp (List.mem_reverse.mp member) with digit | sign
    · exact itoa_loop_plain _ _ _ c digit
    · rw [List.mem_singleton.mp sign]
      exact ⟨by decide, by decide⟩
  · exact itoa_loop_plain _ _ _ c (List.mem_reverse.mp member)

theorem put_plain (c : Byte) (plain : ¬ IsLineBreak c) : putOrNewline c = .put c := if_neg plain

/-- Sixteen bits of length are enough for what is printed as a number. -/
theorem vga_print_plain (text : List Byte) (short : text.length < 65536)
    (plain : ∀ c ∈ text, ¬ IsLineBreak c) : vgaPrint text = text.map putOrNewline := by
  have whole : u16 text.length = text.length := Nat.mod_eq_of_lt short
  rw [vgaPrint, whole, List.take_length]
  apply List.map_congr_left
  intro c member
  rw [put_plain c (plain c member)]

theorem vga_print_itoa (value : Int) (base : Nat) :
    vgaPrint (itoa value base) = (itoa value base).map putOrNewline := by
  have length := itoa_length value base
  exact vga_print_plain _ (by omega) fun c member => (itoa_plain value base c member).1

theorem uppercase_itoa (value : Int) (base : Nat) :
    (itoa value base).map uppercase = itoa value base := by
  have same : ∀ c ∈ itoa value base, uppercase c = id c := by
    intro c member
    have below := (itoa_plain value base c member).2
    have outside : ¬ (charByte 'a' ≤ c ∧ c ≤ charByte 'f') :=
      fun inside => absurd below (UInt8.not_lt.mpr inside.1)
    rw [uppercase, if_neg outside, id]
  rw [List.map_congr_left same, List.map_id]

theorem vga_print_radix :
    vgaPrint [charByte '0', charByte 'x'] = [charByte '0', charByte 'x'].map putOrNewline := rfl

theorem replicate_space (count : Nat) :
    List.replicate count (ConsoleCall.put (charByte ' ')) =
      (List.replicate count (charByte ' ')).map putOrNewline := by
  rw [List.map_replicate]
  rfl

section Directives

theorem first_supplied {kind : ArgKind} {args : List Arg}
    (supplied : [kind] <+: args.map Arg.kind) :
    ∃ first rest, args = first :: rest ∧ first.kind = kind := by
  cases args with
  | nil => cases List.prefix_nil.mp supplied
  | cons first rest => exact ⟨first, rest, rfl, (List.cons_prefix_cons.mp supplied).1.symm⟩

/-- What the two switches have in common for a supplied directive: they leave
the same arguments, and as many calls as characters. -/
structure Agrees (width : Int) (c : Byte) (args : List Arg) (stored : List Byte)
    (calls : List ConsoleCall) (rest : List Arg) : Prop where
  stores : sprintfDirective width c args = some (stored, rest)
  prints : printfDirective width c args = some (calls, rest)
  takes : args.map Arg.kind = directiveKinds c ++ rest.map Arg.kind
  length : calls.length = stored.length
  same : calls = stored.map putOrNewline ↔ ¬ IsLineBreak c

theorem agrees_known {width : Int} {c : Byte} {args : List Arg} {stored : List Byte}
    {calls : List ConsoleCall} {rest : List Arg}
    (stores : sprintfDirective width c args = some (stored, rest))
    (prints : printfDirective width c args = some (calls, rest))
    (takes : args.map Arg.kind = directiveKinds c ++ rest.map Arg.kind)
    (equal : calls = stored.map putOrNewline) (known : ¬ IsLineBreak c) :
    Agrees width c args stored calls rest := by
  refine ⟨stores, prints, takes, ?_, iff_of_true equal known⟩
  rw [equal, List.length_map]

theorem padded_number (count : Nat) (value : Int) (base : Nat) :
    List.replicate count (ConsoleCall.put (charByte ' ')) ++ vgaPrint (itoa value base) =
      (List.replicate count (charByte ' ') ++ itoa value base).map putOrNewline := by
  rw [List.map_append, vga_print_itoa, replicate_space]

theorem radix_number (value : Int) :
    vgaPrint [charByte '0', charByte 'x'] ++ vgaPrint (itoa value 16) =
      ([charByte '0', charByte 'x'] ++ itoa value 16).map putOrNewline := by
  rw [List.map_append, vga_print_itoa, vga_print_radix]

theorem word_directive_agrees (width : Int) (c : Byte) (value : UInt32) (rest : List Arg)
    (word : c ∈ wordDirectives) :
    ∃ stored calls, Agrees width c (.word value :: rest) stored calls rest := by
  simp only [wordDirectives, List.map_cons, List.map_nil, List.mem_cons, List.not_mem_nil,
    or_false] at word
  rcases word with rfl | rfl | rfl | rfl | rfl | rfl | rfl
  · exact ⟨_, _, agrees_known rfl rfl rfl rfl (by decide)⟩
  · exact ⟨_, _, agrees_known rfl rfl rfl (padded_number _ _ 10) (by decide)⟩
  · exact ⟨_, _, agrees_known rfl rfl rfl (padded_number _ _ 10) (by decide)⟩
  · exact ⟨_, _, agrees_known rfl rfl rfl (padded_number _ _ 10) (by decide)⟩
  · exact ⟨_, _, agrees_known rfl rfl rfl (radix_number _) (by decide)⟩
  · refine ⟨_, _, agrees_known rfl rfl rfl ?_ (by decide)⟩
    rw [uppercase_itoa]
    exact radix_number _
  · exact ⟨_, _, agrees_known rfl rfl rfl (vga_print_itoa _ 8) (by decide)⟩

theorem string_directive_agrees (width : Int) (s : Option (List Byte)) (rest : List Arg) :
    ∃ stored calls, Agrees width (charByte 's') (.string s :: rest) stored calls rest := by
  refine ⟨_, _, agrees_known rfl rfl rfl ?_ (by decide)⟩
  rw [List.map_append, if_neg (show ¬ IsLineBreak (charByte 's') by decide), replicate_space]

theorem pointer_directive_agrees (width : Int) (address : UInt32) (rest : List Arg) :
    ∃ stored calls, Agrees width (charByte 'p') (.pointer address :: rest) stored calls rest :=
  ⟨_, _, agrees_known rfl rfl rfl (radix_number _) (by decide)⟩

theorem percent_directive_agrees (width : Int) (args : List Arg) :
    ∃ stored calls, Agrees width (charByte '%') args stored calls args :=
  ⟨_, _, agrees_known rfl rfl rfl rfl (by decide)⟩

/-- An unknown directive character is copied; only as a line break does the
screen treat it otherwise. -/
theorem unknown_directive_agrees (width : Int) (c : Byte) (args : List Arg)
    (notWord : c ∉ wordDirectives) (notString : c ≠ charByte 's')
    (notPointer : c ≠ charByte 'p') (notPercent : c ≠ charByte '%') :
    Agrees width c args [charByte '%', c] [.put (charByte '%'), .put c] args := by
  have takes : directiveKinds c = [] := by
    rw [directiveKinds, if_neg notWord, if_neg notString, if_neg notPointer]
  simp only [wordDirectives, List.map_cons, List.map_nil, List.mem_cons, List.not_mem_nil,
    or_false, not_or] at notWord
  obtain ⟨notC, notD, notI, notU, notx, notX, notO⟩ := notWord
  have notDecimal : ¬ (c = charByte 'd' ∨ c = charByte 'i') := not_or.mpr ⟨notD, notI⟩
  refine ⟨?_, ?_, ?_, rfl, ?_⟩
  · simp only [sprintfDirective, notC, notString, notDecimal, notU, notx, notX, notO, notPointer,
      notPercent, if_false]
  · simp only [printfDirective, notC, notString, notDecimal, notU, notx, notX, notO, notPointer,
      notPercent, if_false]
  · rw [takes, List.nil_append]
  · have percent : putOrNewline (charByte '%') = .put (charByte '%') := rfl
    rw [List.map_cons, List.map_cons, List.map_nil, percent]
    constructor
    · intro equal lineBreak
      rw [putOrNewline, if_pos lineBreak] at equal
      cases equal
    · intro plain
      rw [put_plain c plain]

/-- One directive with its arguments supplied: the switches agree on all but
the line breaks. -/
theorem directive_agrees (width : Int) (c : Byte) (args : List Arg)
    (supplied : directiveKinds c <+: args.map Arg.kind) :
    ∃ stored calls rest, Agrees width c args stored calls rest := by
  unfold directiveKinds at supplied
  by_cases word : c ∈ wordDirectives
  · rw [if_pos word] at supplied
    obtain ⟨first, rest, rfl, kind⟩ := first_supplied supplied
    cases first with
    | word value =>
        obtain ⟨stored, calls, agrees⟩ := word_directive_agrees width c value rest word
        exact ⟨stored, calls, rest, agrees⟩
    | pointer address => cases kind
    | string s => cases kind
  rw [if_neg word] at supplied
  by_cases string : c = charByte 's'
  · rw [if_pos string] at supplied
    obtain ⟨first, rest, rfl, kind⟩ := first_supplied supplied
    subst string
    cases first with
    | word value => cases kind
    | pointer address => cases kind
    | string s =>
        obtain ⟨stored, calls, agrees⟩ := string_directive_agrees width s rest
        exact ⟨stored, calls, rest, agrees⟩
  rw [if_neg string] at supplied
  by_cases pointer : c = charByte 'p'
  · rw [if_pos pointer] at supplied
    obtain ⟨first, rest, rfl, kind⟩ := first_supplied supplied
    subst pointer
    cases first with
    | word value => cases kind
    | pointer address =>
        obtain ⟨stored, calls, agrees⟩ := pointer_directive_agrees width address rest
        exact ⟨stored, calls, rest, agrees⟩
    | string s => cases kind
  by_cases percent : c = charByte '%'
  · subst percent
    obtain ⟨stored, calls, agrees⟩ := percent_directive_agrees width args
    exact ⟨stored, calls, args, agrees⟩
  exact ⟨_, _, args, unknown_directive_agrees width c args word string pointer percent⟩

end Directives

/-- What the loops have in common from some place on: both have a result, as
many calls as characters, and a difference only by a line break in a directive. -/
structure LoopsAgree (place : Option Int) (format : List Byte) (args : List Arg)
    (stored : List Byte) (calls : List ConsoleCall) : Prop where
  stores : sprintfLoop place format args = some stored
  prints : printfLoop place format args = some calls
  length : calls.length = stored.length
  same : calls = stored.map putOrNewline ↔ NoLineBreakDirective place.isSome format

section Loops

variable {format : List Byte} {args : List Arg} {stored : List Byte} {calls : List ConsoleCall}

theorem percent_agrees (later : LoopsAgree (some 0) format args stored calls) :
    LoopsAgree none (charByte '%' :: format) args stored calls := by
  refine ⟨?_, ?_, later.length, ?_⟩
  · rw [sprintfLoop, if_pos rfl, later.stores]
  · rw [printfLoop, if_neg (by decide), if_pos rfl, later.prints]
  · rw [later.same]
    rfl

theorem literal_agrees {c : Byte} (literal : c ≠ charByte '%')
    (later : LoopsAgree none format args stored calls) :
    LoopsAgree none (c :: format) args (c :: stored) (putOrNewline c :: calls) := by
  have rest : NoLineBreakDirective (none : Option Int).isSome (c :: format) ↔
      NoLineBreakDirective (none : Option Int).isSome format := by
    simp only [Option.isSome_none, NoLineBreakDirective, literal, decide_false]
  refine ⟨?_, ?_, ?_, ?_⟩
  · rw [sprintfLoop, if_neg literal, later.stores]
    rfl
  · rw [printfLoop, if_neg literal, later.prints, putOrNewline]
    split_ifs <;> rfl
  · rw [List.length_cons, List.length_cons, later.length]
  · rw [rest, ← later.same, List.map_cons]
    simp only [List.cons.injEq, true_and]

theorem digit_agrees {width : Int} {c : Byte} (digit : IsDigit c)
    (later : LoopsAgree (some (widthStep width c)) format args stored calls) :
    LoopsAgree (some width) (c :: format) args stored calls := by
  refine ⟨?_, ?_, later.length, ?_⟩
  · rw [sprintfLoop, if_pos digit, later.stores]
  · rw [printfLoop, if_pos digit, later.prints]
  · rw [later.same]
    simp only [Option.isSome_some, NoLineBreakDirective, if_pos digit]

/-- Calls and characters stay in step, so a difference is one of the directive
or one behind it. -/
theorem directive_then_agrees {width : Int} {c : Byte} {rest : List Arg} {first : List Byte}
    {firstCalls : List ConsoleCall} (notDigit : ¬ IsDigit c)
    (agrees : Agrees width c args first firstCalls rest)
    (later : LoopsAgree none format rest stored calls) :
    LoopsAgree (some width) (c :: format) args (first ++ stored) (firstCalls ++ calls) := by
  refine ⟨?_, ?_, ?_, ?_⟩
  · rw [sprintfLoop, if_neg notDigit, agrees.stores]
    simp only [Option.bind_eq_bind, Option.bind_some, later.stores, Option.map_some]
  · rw [printfLoop, if_neg notDigit, agrees.prints]
    simp only [Option.bind_eq_bind, Option.bind_some, later.prints, Option.map_some]
  · rw [List.length_append, List.length_append, agrees.length, later.length]
  · have same := later.same
    simp only [Option.isSome_none] at same
    simp only [Option.isSome_some, NoLineBreakDirective, if_neg notDigit]
    rw [← agrees.same, ← same, List.map_append]
    constructor
    · intro equal
      exact List.append_inj equal (by rw [List.length_map, agrees.length])
    · rintro ⟨head, tail⟩
      rw [head, tail]

end Loops

/-- The induction over the format, from inside or outside a directive. -/
theorem loops_agree (place : Option Int) (format : List Byte) (args : List Arg)
    (kinds : List ArgKind) (requested : requestedKinds place.isSome format = some kinds)
    (supplied : kinds <+: args.map Arg.kind) :
    ∃ stored calls, LoopsAgree place format args stored calls := by
  induction format generalizing place args kinds with
  | nil =>
      cases place with
      | none => exact ⟨[], [], rfl, rfl, rfl, iff_of_true rfl trivial⟩
      | some width => cases requested
  | cons c format ih =>
      cases place with
      | none =>
          simp only [Option.isSome_none, requestedKinds] at requested
          by_cases percent : c = charByte '%'
          · subst percent
            obtain ⟨stored, calls, later⟩ := ih (some 0) args kinds requested supplied
            exact ⟨stored, calls, percent_agrees later⟩
          · rw [decide_eq_false percent] at requested
            obtain ⟨stored, calls, later⟩ := ih none args kinds requested supplied
            exact ⟨_, _, literal_agrees percent later⟩
      | some width =>
          simp only [Option.isSome_some, requestedKinds] at requested
          by_cases digit : IsDigit c
          · rw [if_pos digit] at requested
            obtain ⟨stored, calls, later⟩ :=
              ih (some (widthStep width c)) args kinds requested supplied
            exact ⟨stored, calls, digit_agrees digit later⟩
          · rw [if_neg digit] at requested
            obtain ⟨following, requestedLater, rfl⟩ := Option.map_eq_some_iff.mp requested
            obtain ⟨first, firstCalls, rest, agrees⟩ := directive_agrees width c args
              ((List.prefix_append _ _).trans supplied)
            have suppliedLater : following <+: rest.map Arg.kind := by
              rw [agrees.takes] at supplied
              exact (List.prefix_append_right_inj _).mp supplied
            obtain ⟨stored, calls, later⟩ := ih none rest following requestedLater suppliedLater
            exact ⟨_, _, directive_then_agrees digit agrees later⟩

/-- For a format with its arguments both interpreters produce their output,
and `printf` shows what `sprintf` stores exactly when no percent sign with its
width is followed by a line break. -/
theorem printf_shows_sprintf_iff (format : List Byte) (args : List Arg)
    (supplied : Matches format args) :
    ∃ stored calls, sprintfStored format args = some stored ∧ printf format args = some calls ∧
      (calls = stored.map putOrNewline ↔ NoLineBreakDirective false format) := by
  obtain ⟨kinds, requested, begins⟩ := supplied
  obtain ⟨stored, calls, agree⟩ := loops_agree none format args kinds requested begins
  exact ⟨stored, calls, agree.stores, agree.prints, agree.same⟩

/-- A width, a number and a literal. -/
theorem printf_shows_sprintf_number :
    Matches (['%', '4', 'd', '!'].map charByte) [.word 42] ∧
      ∃ stored calls, sprintfStored (['%', '4', 'd', '!'].map charByte) [.word 42] = some stored ∧
        printf (['%', '4', 'd', '!'].map charByte) [.word 42] = some calls ∧
        (calls = stored.map putOrNewline ↔
          NoLineBreakDirective false (['%', '4', 'd', '!'].map charByte)) :=
  have supplied : Matches (['%', '4', 'd', '!'].map charByte) [.word 42] :=
    ⟨[.word], rfl, List.prefix_rfl⟩
  ⟨supplied, printf_shows_sprintf_iff _ _ supplied⟩

/-- A percent sign before a line feed: the line feed becomes a cell. -/
theorem printf_percent_line_feed :
    Matches [charByte '%', 10] [] ∧
      ¬ ∃ stored calls, sprintfStored [charByte '%', 10] [] = some stored ∧
        printf [charByte '%', 10] [] = some calls ∧ calls = stored.map putOrNewline := by
  refine ⟨⟨[], rfl, List.prefix_rfl⟩, ?_⟩
  rintro ⟨stored, calls, stores, prints, equal⟩
  have storedIs : stored = [charByte '%', 10] := (Option.some.inj stores).symm
  have callsAre : calls = [.put (charByte '%'), .put 10] := (Option.some.inj prints).symm
  rw [storedIs, callsAre] at equal
  revert equal
  decide

end LumenOS.PrintfAgreement
