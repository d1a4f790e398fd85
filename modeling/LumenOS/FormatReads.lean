import LumenOS.PrintfAgreement
import LumenOS.TerminatedText

/-!
# What the formatters read of their format

The loops of `printf` and `sprintf` once more, over the memory of the format
instead of the list of its characters. Each round reads one index, in the loop
condition, behind a percent sign or in a width, and the indices are recorded.
A directive takes the character behind it whatever it is, so a format that
ends inside one has its terminator taken for a directive character.
-/

namespace LumenOS.FormatReads

open LumenOS.ByteMemory LumenOS.StdioModel LumenOS.PrintfAgreement LumenOS.TerminatedText

set_option autoImplicit false

/-- How a loop over a format stands after the rounds it was given. -/
inductive Ending where
  | finished
  | stillRunning
  | missingArgument
  deriving DecidableEq

structure Outcome (Output : Type) where
  reads : List Nat
  output : List Output
  ending : Ending

def Outcome.after {Output : Type} (later : Outcome Output) (index : Nat)
    (output : List Output) : Outcome Output where
  reads := index :: later.reads
  output := output ++ later.output
  ending := later.ending

section Loop

variable {Output : Type} (literal : Byte → Output)
  (directive : Int → Byte → List Arg → Option (List Output × List Arg))

/-- The loop of both formatters from index `i` on, outside a directive or in
the width of one. The terminator is tested for only outside a directive. -/
def formatLoop (format : Nat → Byte) :
    Nat → Nat → Option Int → List Arg → Outcome Output
  | 0, _, _, _ => ⟨[], [], .stillRunning⟩
  | rounds + 1, i, none, args =>
      if format i = 0 then ⟨[i], [], .finished⟩
      else if format i = charByte '%' then
        (formatLoop format rounds (i + 1) (some 0) args).after i []
      else (formatLoop format rounds (i + 1) none args).after i [literal (format i)]
  | rounds + 1, i, some width, args =>
      if IsDigit (format i) then
        (formatLoop format rounds (i + 1) (some (widthStep width (format i))) args).after i []
      else
        match directive width (format i) args with
        | none => ⟨[i], [], .missingArgument⟩
        | some (output, rest) => (formatLoop format rounds (i + 1) none rest).after i output

def textLoop : Option Int → List Byte → List Arg → Option (List Output)
  | none, [], _ => some []
  | some _, [], _ => none
  | none, c :: text, args =>
      if c = charByte '%' then textLoop (some 0) text args
      else (textLoop none text args).map (literal c :: ·)
  | some width, c :: text, args =>
      if IsDigit c then textLoop (some (widthStep width c)) text args
      else do
        let (output, rest) ← directive width c args
        (textLoop none text rest).map (output ++ ·)

end Loop

def printfAt (format : Nat → Byte) (args : List Arg) (rounds : Nat) : Outcome ConsoleCall :=
  formatLoop putOrNewline printfDirective format rounds 0 none args

def sprintfAt (format : Nat → Byte) (args : List Arg) (rounds : Nat) : Outcome Byte :=
  formatLoop id sprintfDirective format rounds 0 none args

/-- `str[pos++] = c`. -/
def storeNext (str : Nat) (buffer : Memory × Nat) (c : Byte) : Memory × Nat :=
  (writeByte buffer.1 (str + buffer.2) c, buffer.2 + 1)

def sprintfResult (memory : Memory) (str : Nat) (outcome : Outcome Byte) :
    Option (Memory × Nat) :=
  if outcome.ending = .finished then
    let (memory, pos) := outcome.output.foldl (storeNext str) (memory, 0)
    some (writeByte memory (str + pos) 0, pos)
  else none

/-- The format ends behind a percent sign or in the width after it. -/
def endsInside : Bool → List Byte → Bool
  | inside, [] => inside
  | false, c :: text => endsInside (decide (c = charByte '%')) text
  | true, c :: text => endsInside (decide (IsDigit c)) text

/-- The arguments that the complete directives of a format ask for. -/
def completeKinds : Bool → List Byte → List ArgKind
  | _, [] => []
  | false, c :: text => completeKinds (decide (c = charByte '%')) text
  | true, c :: text =>
      if IsDigit c then completeKinds true text
      else directiveKinds c ++ completeKinds false text

theorem requested_complete (inside : Bool) (text : List Byte)
    (outside : endsInside inside text = false) :
    requestedKinds inside text = some (completeKinds inside text) := by
  induction text generalizing inside with
  | nil =>
      cases inside with
      | false => rfl
      | true => cases outside
  | cons c text ih =>
      cases inside with
      | false => exact ih _ outside
      | true =>
          simp only [endsInside] at outside
          simp only [requestedKinds, completeKinds]
          by_cases digit : IsDigit c
          · rw [decide_eq_true digit] at outside
            rw [if_pos digit, if_pos digit]
            exact ih true outside
          · rw [decide_eq_false digit] at outside
            rw [if_neg digit, if_neg digit, ih false outside]
            rfl

section Reads

variable {Output : Type}

theorem after_reads_le {later : Outcome Output} {index last : Nat} {output : List Output}
    (here : index ≤ last) (within : ∀ read ∈ later.reads, read ≤ last) :
    ∀ read ∈ (later.after index output).reads, read ≤ last :=
  List.forall_mem_cons.mpr ⟨here, within⟩

variable (literal : Byte → Output)
  (directive : Int → Byte → List Arg → Option (List Output × List Arg)) {format : Nat → Byte}

structure Moves (format : Nat → Byte) (i : Nat) (place next : Option Int)
    (output : List Output) : Prop where
  loop : ∀ rounds args, formatLoop literal directive format (rounds + 1) i place args =
    (formatLoop literal directive format rounds (i + 1) next args).after i output
  ends : ∀ text, endsInside place.isSome (format i :: text) = endsInside next.isSome text
  kinds : ∀ text, completeKinds place.isSome (format i :: text) = completeKinds next.isSome text
  texts : ∀ text args, textLoop literal directive place (format i :: text) args =
    (textLoop literal directive next text args).map (output ++ ·)

structure Hands (format : Nat → Byte) (i : Nat) (place : Option Int) (width : Int) : Prop where
  missing : ∀ rounds args, directive width (format i) args = none →
    formatLoop literal directive format (rounds + 1) i place args =
      ⟨[i], [], .missingArgument⟩
  taken : ∀ rounds args output rest, directive width (format i) args = some (output, rest) →
    formatLoop literal directive format (rounds + 1) i place args =
      (formatLoop literal directive format rounds (i + 1) none rest).after i output
  ends : ∀ text, endsInside place.isSome (format i :: text) = endsInside false text
  kinds : ∀ text, completeKinds place.isSome (format i :: text) =
    directiveKinds (format i) ++ completeKinds false text
  texts : ∀ text args, textLoop literal directive place (format i :: text) args =
    (directive width (format i) args).bind fun result =>
      (textLoop literal directive none text result.2).map (result.1 ++ ·)

theorem round_moves_outside {i : Nat} (nonzero : format i ≠ 0) :
    ∃ next output, Moves literal directive format i none next output := by
  by_cases percent : format i = charByte '%'
  · refine ⟨some 0, [], ?_⟩
    constructor
    · intro rounds args
      rw [formatLoop, if_neg nonzero, if_pos percent]
    · intro text
      simp [endsInside, percent]
    · intro text
      simp [completeKinds, percent]
    · intro text args
      simp [textLoop, percent]
  · refine ⟨none, [literal (format i)], ?_⟩
    constructor
    · intro rounds args
      rw [formatLoop, if_neg nonzero, if_neg percent]
    · intro text
      simp [endsInside, percent]
    · intro text
      simp [completeKinds, percent]
    · intro text args
      simp [textLoop, percent]

theorem round_cases_inside (i : Nat) (width : Int) :
    (∃ next output, Moves literal directive format i (some width) next output) ∨
      Hands literal directive format i (some width) width := by
  by_cases digit : IsDigit (format i)
  · refine .inl ⟨some (widthStep width (format i)), [], ?_⟩
    constructor
    · intro rounds args
      rw [formatLoop, if_pos digit]
    · intro text
      simp [endsInside, digit]
    · intro text
      simp [completeKinds, digit]
    · intro text args
      simp [textLoop, digit]
  · right
    constructor
    · intro rounds args missing
      rw [formatLoop, if_neg digit, missing]
    · intro rounds args output rest taken
      rw [formatLoop, if_neg digit, taken]
    · intro text
      simp [endsInside, digit]
    · intro text
      simp [completeKinds, digit]
    · intro text args
      simp [textLoop, digit]

theorem round_cases {i : Nat} (nonzero : format i ≠ 0) (place : Option Int) :
    (∃ next output, Moves literal directive format i place next output) ∨
      ∃ width, Hands literal directive format i place width := by
  cases place with
  | none => exact .inl (round_moves_outside literal directive nonzero)
  | some width => exact (round_cases_inside literal directive i width).imp_right fun hands =>
      ⟨width, hands⟩

/-- Where the format does not end inside a directive no index behind the
terminator is read, with any arguments and however long the loop runs. -/
theorem reads_within (text : List Byte) (i : Nat) (spelled : Terminated format i text)
    (place : Option Int) (outside : endsInside place.isSome text = false) (args : List Arg)
    (rounds : Nat) :
    ∀ read ∈ (formatLoop literal directive format rounds i place args).reads,
      read ≤ i + text.length := by
  induction text generalizing i place args rounds with
  | nil =>
      cases place with
      | some width => cases outside
      | none =>
          cases rounds with
          | zero => simp [formatLoop]
          | succ rounds =>
              have terminator : format i = 0 := spelled
              rw [formatLoop, if_pos terminator]
              simp
  | cons c text ih =>
      obtain ⟨rfl, nonzero, later⟩ := spelled
      have length : i + (format i :: text).length = i + 1 + text.length := by
        rw [List.length_cons]
        omega
      rw [length]
      cases rounds with
      | zero => simp [formatLoop]
      | succ rounds =>
          rcases round_cases literal directive nonzero place with
            ⟨next, output, moves⟩ | ⟨width, hands⟩
          · rw [moves.ends] at outside
            rw [moves.loop]
            exact after_reads_le (by omega) (ih (i + 1) later next outside args rounds)
          · rw [hands.ends] at outside
            cases result : directive width (format i) args with
            | none =>
                rw [hands.missing rounds args result]
                exact List.forall_mem_cons.mpr ⟨by omega, List.forall_mem_nil _⟩
            | some taken =>
                rw [hands.taken rounds args taken.1 taken.2 result]
                exact after_reads_le (by omega) (ih (i + 1) later none outside taken.2 rounds)

def TakesArguments : Prop :=
  ∀ width c args, directiveKinds c <+: args.map Arg.kind →
    ∃ output rest, directive width c args = some (output, rest) ∧
      args.map Arg.kind = directiveKinds c ++ rest.map Arg.kind

/-- A format that ends inside a directive is read on behind its terminator:
the zero is no digit and asks for no argument. -/
theorem reads_past {directive} (takes : TakesArguments directive) (text : List Byte)
    (i : Nat) (spelled : Terminated format i text) (place : Option Int)
    (inside : endsInside place.isSome text = true) (args : List Arg)
    (enough : completeKinds place.isSome text <+: args.map Arg.kind) :
    i + text.length + 1 ∈
      (formatLoop literal directive format (text.length + 2) i place args).reads := by
  induction text generalizing i place args with
  | nil =>
      cases place with
      | none => cases inside
      | some width =>
          have terminator : format i = 0 := spelled
          obtain ⟨output, rest, taken, -⟩ := takes width 0 args List.nil_prefix
          have next : i + 1 ∈ (formatLoop literal directive format 1 (i + 1) none rest).reads := by
            rw [formatLoop]
            split_ifs <;> exact List.mem_cons_self
          rw [List.length_nil, formatLoop, terminator, if_neg (by decide), taken]
          exact List.mem_cons_of_mem _ next
  | cons c text ih =>
      obtain ⟨rfl, nonzero, later⟩ := spelled
      have length : i + (format i :: text).length + 1 = i + 1 + text.length + 1 := by
        rw [List.length_cons]
        omega
      rw [length, List.length_cons]
      rcases round_cases literal directive nonzero place with
        ⟨next, output, moves⟩ | ⟨width, hands⟩
      · rw [moves.ends] at inside
        rw [moves.kinds] at enough
        rw [moves.loop]
        exact List.mem_cons_of_mem _ (ih (i + 1) later next inside args enough)
      · rw [hands.ends] at inside
        rw [hands.kinds] at enough
        obtain ⟨output, rest, taken, kinds⟩ :=
          takes width (format i) args ((List.prefix_append _ _).trans enough)
        rw [kinds] at enough
        rw [hands.taken _ args output rest taken]
        exact List.mem_cons_of_mem _
          (ih (i + 1) later none inside rest ((List.prefix_append_right_inj _).mp enough))

/-- Over a format the list loop has a result for, the memory loop ends with
that result after one round a character and one for the terminator. -/
theorem loop_finishes (text : List Byte) (i : Nat) (spelled : Terminated format i text)
    (place : Option Int) (args : List Arg) (output : List Output)
    (result : textLoop literal directive place text args = some output) :
    (formatLoop literal directive format (text.length + 1) i place args).output = output ∧
      (formatLoop literal directive format (text.length + 1) i place args).ending =
        .finished := by
  induction text generalizing i place args output with
  | nil =>
      cases place with
      | some width => cases result
      | none =>
          have terminator : format i = 0 := spelled
          rw [List.length_nil, formatLoop, if_pos terminator]
          exact ⟨Option.some.inj result, rfl⟩
  | cons c text ih =>
      obtain ⟨rfl, nonzero, later⟩ := spelled
      rw [List.length_cons]
      rcases round_cases literal directive nonzero place with
        ⟨next, head, moves⟩ | ⟨width, hands⟩
      · rw [moves.texts] at result
        obtain ⟨tail, tailResult, rfl⟩ := Option.map_eq_some_iff.mp result
        obtain ⟨same, ending⟩ := ih (i + 1) later next args tail tailResult
        rw [moves.loop]
        exact ⟨congrArg (head ++ ·) same, ending⟩
      · rw [hands.texts] at result
        obtain ⟨⟨head, rest⟩, taken, mapped⟩ := Option.bind_eq_some_iff.mp result
        obtain ⟨tail, tailResult, rfl⟩ := Option.map_eq_some_iff.mp mapped
        obtain ⟨same, ending⟩ := ih (i + 1) later none rest tail tailResult
        rw [hands.taken _ args head rest taken]
        exact ⟨congrArg (head ++ ·) same, ending⟩

end Reads

theorem text_loop_printf (place : Option Int) (text : List Byte) (args : List Arg) :
    textLoop putOrNewline printfDirective place text args = printfLoop place text args := by
  induction text generalizing place args with
  | nil => cases place <;> rfl
  | cons c text ih =>
      cases place with
      | none =>
          rw [textLoop, printfLoop, ih, ih, putOrNewline]
          by_cases lineBreak : IsLineBreak c
          · have notPercent : c ≠ charByte '%' := by
              rintro rfl
              exact absurd lineBreak (by decide)
            rw [if_neg notPercent, if_pos lineBreak, if_pos lineBreak]
          · rw [if_neg lineBreak, if_neg lineBreak]
      | some width =>
          rw [textLoop, printfLoop, ih]
          simp only [ih]

theorem text_loop_sprintf (place : Option Int) (text : List Byte) (args : List Arg) :
    textLoop id sprintfDirective place text args = sprintfLoop place text args := by
  induction text generalizing place args with
  | nil => cases place <;> rfl
  | cons c text ih =>
      cases place with
      | none =>
          rw [textLoop, sprintfLoop, ih, ih]
          rfl
      | some width =>
          rw [textLoop, sprintfLoop, ih]
          simp only [ih]

theorem printf_takes_arguments : TakesArguments printfDirective := by
  intro width c args supplied
  obtain ⟨stored, calls, rest, agrees⟩ := directive_agrees width c args supplied
  exact ⟨calls, rest, agrees.prints, agrees.takes⟩

theorem sprintf_takes_arguments : TakesArguments sprintfDirective := by
  intro width c args supplied
  obtain ⟨stored, calls, rest, agrees⟩ := directive_agrees width c args supplied
  exact ⟨stored, rest, agrees.stores, agrees.takes⟩

theorem store_all (memory : Memory) (str pos : Nat) (stored : List Byte) :
    stored.foldl (storeNext str) (memory, pos) =
      (writeBytes memory (str + pos) stored, pos + stored.length) := by
  induction stored generalizing memory pos with
  | nil => rfl
  | cons c stored ih =>
      rw [List.foldl_cons, storeNext, ih, writeBytes, List.length_cons, ← Nat.add_assoc,
        Nat.add_assoc pos, Nat.add_comm 1]

theorem sprintf_result_stored (memory : Memory) (str : Nat) (outcome : Outcome Byte)
    (ending : outcome.ending = .finished) :
    sprintfResult memory str outcome =
      some (writeBytes memory str (outcome.output ++ [0]), outcome.output.length) := by
  rw [sprintfResult, if_pos ending, store_all, Nat.zero_add, Nat.add_zero, write_bytes_append]
  rfl

/-- The terminator as the end of a format: no index behind it is read, both
loops end, and what `sprintf` stores and counts is the text that the characters
before the terminator and the arguments determine. -/
structure StopsAtTerminator (format : Nat → Byte) (text : List Byte) (args : List Arg) :
    Prop where
  printf_reads : ∀ rounds, ∀ index ∈ (printfAt format args rounds).reads, index ≤ text.length
  sprintf_reads : ∀ rounds, ∀ index ∈ (sprintfAt format args rounds).reads, index ≤ text.length
  printf_ends : ∃ rounds, (printfAt format args rounds).ending = .finished
  sprintf_returns : ∃ rounds stored, sprintfStored text args = some stored ∧
    ∀ memory str, sprintfResult memory str (sprintfAt format args rounds) =
      some (writeBytes memory str (stored ++ [0]), stored.length)

theorem stops_outside {format : Nat → Byte} {text : List Byte} {args : List Arg}
    (spelled : Terminated format 0 text)
    (enough : completeKinds false text <+: args.map Arg.kind)
    (outside : endsInside false text = false) : StopsAtTerminator format text args := by
  obtain ⟨stored, calls, agree⟩ :=
    loops_agree none text args _ (requested_complete false text outside) enough
  have prints := loop_finishes _ _ text 0 spelled none args calls
    ((text_loop_printf none text args).trans agree.prints)
  obtain ⟨same, ending⟩ := loop_finishes _ _ text 0 spelled none args stored
    ((text_loop_sprintf none text args).trans agree.stores)
  have printfWithin := reads_within putOrNewline printfDirective text 0 spelled none outside args
  have sprintfWithin := reads_within id sprintfDirective text 0 spelled none outside args
  rw [Nat.zero_add] at printfWithin sprintfWithin
  refine ⟨printfWithin, sprintfWithin, ⟨text.length + 1, prints.2⟩, text.length + 1, stored,
    agree.stores, ?_⟩
  intro memory str
  rw [sprintfAt, sprintf_result_stored memory str _ ending, same]

/-- Both formatters read the index behind the terminator of such a format. -/
theorem formatters_read_past {format : Nat → Byte} {text : List Byte} {args : List Arg}
    (spelled : Terminated format 0 text) (inside : endsInside false text = true)
    (enough : completeKinds false text <+: args.map Arg.kind) :
    text.length + 1 ∈ (printfAt format args (text.length + 2)).reads ∧
      text.length + 1 ∈ (sprintfAt format args (text.length + 2)).reads := by
  have place : 0 + text.length + 1 = text.length + 1 := by rw [Nat.zero_add]
  have printed := reads_past putOrNewline printf_takes_arguments text 0 spelled
    none inside args enough
  have stored := reads_past id sprintf_takes_arguments text 0 spelled none inside args enough
  rw [place] at printed stored
  exact ⟨printed, stored⟩

/-- With enough arguments for the complete directives the formatters stop at
the terminator exactly when the format does not end inside a directive. -/
theorem stops_at_terminator_iff (format : Nat → Byte) (text : List Byte) (args : List Arg)
    (spelled : Terminated format 0 text)
    (enough : completeKinds false text <+: args.map Arg.kind) :
    StopsAtTerminator format text args ↔ endsInside false text = false := by
  constructor
  · intro stops
    by_contra inside
    have past := formatters_read_past spelled (eq_true_of_ne_false inside) enough
    have within := stops.sprintf_reads _ _ past.2
    omega
  · exact stops_outside spelled enough

def formatMemory (text : List Byte) : Nat → Byte := fun i => text.getD i 0

/-- A number with a width and a literal. -/
theorem stops_at_terminator_number :
    (Terminated (formatMemory (['%', '4', 'd', '!'].map charByte)) 0
        (['%', '4', 'd', '!'].map charByte) ∧
      completeKinds false (['%', '4', 'd', '!'].map charByte) <+:
        [Arg.word 42].map Arg.kind) ∧
      (StopsAtTerminator (formatMemory (['%', '4', 'd', '!'].map charByte))
          (['%', '4', 'd', '!'].map charByte) [.word 42] ↔
        endsInside false (['%', '4', 'd', '!'].map charByte) = false) :=
  have spelled : Terminated (formatMemory (['%', '4', 'd', '!'].map charByte)) 0
      (['%', '4', 'd', '!'].map charByte) :=
    ⟨rfl, by decide, rfl, by decide, rfl, by decide, rfl, by decide, rfl⟩
  have enough : completeKinds false (['%', '4', 'd', '!'].map charByte) <+:
      [Arg.word 42].map Arg.kind := List.prefix_rfl
  ⟨⟨spelled, enough⟩, stops_at_terminator_iff _ _ _ spelled enough⟩

/-- A lone percent sign: the index behind the terminator is read, and the zero
is stored as a character of the text. -/
theorem lone_percent_reads_past :
    Terminated (formatMemory [charByte '%']) 0 [charByte '%'] ∧
      completeKinds false [charByte '%'] <+: ([] : List Arg).map Arg.kind ∧
      (sprintfAt (formatMemory [charByte '%']) [] 3).reads = [0, 1, 2] ∧
      (sprintfAt (formatMemory [charByte '%']) [] 3).output = [charByte '%', 0] ∧
      ¬ StopsAtTerminator (formatMemory [charByte '%']) [charByte '%'] [] := by
  have reads : (sprintfAt (formatMemory [charByte '%']) [] 3).reads = [0, 1, 2] := by
    decide +kernel
  refine ⟨⟨rfl, by decide, rfl⟩, List.prefix_rfl, reads, by decide +kernel, ?_⟩
  intro stops
  have within := stops.sprintf_reads 3 2 (by rw [reads]; decide)
  exact absurd within (by decide)

end LumenOS.FormatReads
