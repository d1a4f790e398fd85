import LumenOS.TerminatedText
import LumenOS.TokenSplitting

/-!
# `strtok` and `strchr` of the kernel's C library

`strtok` keeps the place where it goes on in a static pointer and cuts the
string behind each token it returns. A loop gets a number of rounds and has no
result where they are used up; one more than the lengths of the strings is
enough for both loops.
-/

namespace LumenOS.StringTokens

open LumenOS.ByteMemory LumenOS.TerminatedText LumenOS.TokenSplitting

set_option autoImplicit false

/-- The address of the first such character, or the null pointer. -/
def strchr (memory : Memory) (c : Byte) : Nat → Nat → Option Nat
  | 0, _ => none
  | rounds + 1, s =>
      if readByte memory s = 0 then some 0
      else if readByte memory s = c then some s
      else strchr memory c rounds (u32 (s + 1))

/-- The loop `while (*next && strchr(delim, *next)) next++;`, or with `wanted`
false the one with `!strchr`. -/
def skipWhile (memory : Memory) (delim limit : Nat) (wanted : Bool) : Nat → Nat → Option Nat
  | 0, _ => none
  | rounds + 1, next =>
      if readByte memory next = 0 then some next
      else do
        let found ← strchr memory (readByte memory next) limit delim
        if decide (found ≠ 0) = wanted then
          skipWhile memory delim limit wanted rounds (u32 (next + 1))
        else some next

structure TokenState where
  memory : Memory
  next : Nat

def strtok (rounds : Nat) (state : TokenState) (str delim : Nat) : Option (Nat × TokenState) :=
  let next := if str ≠ 0 then str else state.next
  if next = 0 then some (0, { state with next })
  else do
    let next ← skipWhile state.memory delim rounds true rounds next
    if readByte state.memory next = 0 then some (0, { state with next })
    else
      let start := next
      let next ← skipWhile state.memory delim rounds false rounds next
      if readByte state.memory next ≠ 0 then
        some (start, { memory := writeByte state.memory next 0, next := u32 (next + 1) })
      else some (start, { state with next := 0 })

/-- One call with a string and then calls with the null pointer, each with a
delimiter string of its own. -/
def strtokCalls (rounds : Nat) :
    TokenState → Nat → List Nat → Option (List Nat × TokenState)
  | state, _, [] => some ([], state)
  | state, str, delim :: delims => do
      let (result, state) ← strtok rounds state str delim
      let (results, state) ← strtokCalls rounds state 0 delims
      some (result :: results, state)

/-- Each delimiter string is one at the time of its call. -/
def DelimitersHold (rounds : Nat) : TokenState → Nat → List (Nat × List Byte) → Prop
  | _, _, [] => True
  | state, str, (delim, set) :: calls =>
      StringAt state.memory delim set ∧
        ∀ result next, strtok rounds state str delim = some (result, next) →
          DelimitersHold rounds next 0 calls

/-- The cut behind a token: its delimiter becomes a terminator. A token at the
end of the text has one already. -/
def cutBehind (s : Nat) (text : List Byte) (memory : Memory) (span : Nat × Nat) : Memory :=
  if span.1 + span.2 < text.length then writeByte memory (s + (span.1 + span.2)) 0 else memory

section Loops

variable {memory : Memory} {delim : Nat} {set : List Byte}

theorem strchr_finds (c : Byte) (spelled : Terminated (readByte memory) delim set)
    (notNull : 0 < delim) (fits : delim + set.length < 2 ^ 32) (rounds : Nat)
    (enough : set.length < rounds) :
    ∃ found, strchr memory c rounds delim = some found ∧ (found ≠ 0 ↔ c ∈ set) := by
  induction set generalizing delim rounds with
  | nil =>
      obtain ⟨rounds, rfl⟩ := Nat.exists_eq_succ_of_ne_zero (Nat.ne_of_gt enough)
      have terminator : readByte memory delim = 0 := spelled
      rw [strchr, if_pos terminator]
      exact ⟨0, rfl, by simp⟩
  | cons d rest ih =>
      obtain ⟨here, nonzero, later⟩ := spelled
      rw [List.length_cons] at fits enough
      obtain ⟨rounds, rfl⟩ := Nat.exists_eq_succ_of_ne_zero (show rounds ≠ 0 by omega)
      rw [strchr, here, if_neg nonzero]
      by_cases same : d = c
      · rw [if_pos same]
        refine ⟨delim, rfl, iff_of_true (by omega) ?_⟩
        rw [same]
        exact List.mem_cons_self
      · have stays : u32 (delim + 1) = delim + 1 := Nat.mod_eq_of_lt (by omega)
        obtain ⟨found, result, exact_iff⟩ := ih later (by omega) (by omega) rounds (by omega)
        rw [if_neg same, stays]
        refine ⟨found, result, ?_⟩
        rw [exact_iff, List.mem_cons, or_iff_right (Ne.symm same)]

theorem skip_while_stops (string : StringAt memory delim set) (limit : Nat)
    (setEnough : set.length < limit) (wanted : Bool) (rest : List Byte) (next : Nat)
    (spelled : Terminated (readByte memory) next rest) (fits : next + rest.length < 2 ^ 32)
    (rounds : Nat) (enough : rest.length < rounds) :
    ∃ count, skipWhile memory delim limit wanted rounds next = some (next + count) ∧
      count ≤ rest.length ∧
      (∀ i c, i < count → rest[i]? = some c → decide (c ∈ set) = wanted) ∧
      ∀ c, rest[count]? = some c → decide (c ∈ set) ≠ wanted := by
  induction rest generalizing next rounds with
  | nil =>
      obtain ⟨rounds, rfl⟩ := Nat.exists_eq_succ_of_ne_zero (Nat.ne_of_gt enough)
      have terminator : readByte memory next = 0 := spelled
      rw [skipWhile, if_pos terminator]
      exact ⟨0, rfl, Nat.le_refl _, by simp, by simp⟩
  | cons d rest ih =>
      obtain ⟨here, nonzero, later⟩ := spelled
      rw [List.length_cons] at fits enough
      obtain ⟨rounds, rfl⟩ := Nat.exists_eq_succ_of_ne_zero (show rounds ≠ 0 by omega)
      obtain ⟨found, result, found_iff⟩ :=
        strchr_finds d string.spelled string.not_null string.fits limit setEnough
      have decided : decide (found ≠ 0) = decide (d ∈ set) := decide_eq_decide.mpr found_iff
      rw [skipWhile, here, if_neg nonzero, result, Option.bind_eq_bind, Option.bind_some, decided]
      by_cases goes : decide (d ∈ set) = wanted
      · have stays : u32 (next + 1) = next + 1 := Nat.mod_eq_of_lt (by omega)
        obtain ⟨count, stops, within, before, behind⟩ :=
          ih (next + 1) later (by omega) rounds (by omega)
        have moved : next + 1 + count = next + (count + 1) := by omega
        rw [if_pos goes, stays, stops, moved]
        refine ⟨count + 1, rfl, Nat.succ_le_succ within, ?_, behind⟩
        intro i c bound symbol
        cases i with
        | zero =>
            obtain rfl : d = c := Option.some.inj symbol
            exact goes
        | succ i => exact before i c (by omega) symbol
      · rw [if_neg goes]
        refine ⟨0, rfl, Nat.zero_le _, by simp, ?_⟩
        intro c symbol
        obtain rfl : d = c := Option.some.inj symbol
        exact goes

end Loops

/-- Where the static pointer stands between two calls: at a place of the text
that is spelled on from there, or null behind a token that ended the text. -/
def Stands (s : Nat) (text : List Byte) (place : Nat) (memory : Memory) (next : Nat) : Prop :=
  (place ≤ text.length ∧ next = s + place ∧
      Terminated (readByte memory) (s + place) (text.drop place)) ∨
    (text.length < place ∧ next = 0)

section Calls

variable {s : Nat} {text : List Byte} {memory : Memory} {delim : Nat} {set : List Byte}

theorem skip_in_text (string : StringAt memory delim set) (fits : s + text.length < 2 ^ 32)
    (rounds : Nat) (enough : text.length < rounds) (setEnough : set.length < rounds)
    (wanted : Bool) (place : Nat) (within : place ≤ text.length)
    (spelled : Terminated (readByte memory) (s + place) (text.drop place)) :
    ∃ stop, skipWhile memory delim rounds wanted rounds (s + place) = some (s + stop) ∧
      place ≤ stop ∧ stop ≤ text.length ∧
      (∀ i c, place ≤ i → i < stop → text[i]? = some c → decide (c ∈ set) = wanted) ∧
      (∀ c, text[stop]? = some c → decide (c ∈ set) ≠ wanted) ∧
      Terminated (readByte memory) (s + stop) (text.drop stop) := by
  have dropped : (text.drop place).length = text.length - place := List.length_drop
  have symbols : ∀ i, (text.drop place)[i]? = text[place + i]? := fun i => List.getElem?_drop
  obtain ⟨count, skips, countWithin, before, behind⟩ :=
    skip_while_stops string rounds setEnough wanted (text.drop place) (s + place) spelled
      (by omega) rounds (by omega)
  have tail := terminated_drop spelled count countWithin
  rw [List.drop_drop, Nat.add_assoc] at tail
  refine ⟨place + count, ?_, Nat.le_add_right _ _, by omega, ?_, ?_, tail⟩
  · rw [skips, Nat.add_assoc]
  · intro i c from_place bound symbol
    have inDrop := symbols (i - place)
    rw [Nat.add_sub_cancel' from_place, symbol] at inDrop
    exact before (i - place) c (by omega) inDrop
  · intro c symbol
    exact behind c ((symbols count).trans symbol)

theorem read_terminator (place : Nat) (within : place ≤ text.length)
    (spelled : Terminated (readByte memory) (s + place) (text.drop place)) :
    readByte memory (s + place) = 0 ↔ place = text.length := by
  constructor
  · intro zero
    by_contra other
    have bound : place < text.length := by omega
    rw [List.drop_eq_getElem_cons bound] at spelled
    exact spelled.2.1 (spelled.1.symm.trans zero)
  · rintro rfl
    rw [List.drop_length] at spelled
    exact spelled

theorem terminated_behind {start : Nat} {rest : List Byte} (cut : Nat)
    (spelled : Terminated (readByte memory) start rest) (below : cut < start)
    (fits : start + rest.length < 2 ^ 32) :
    Terminated (readByte (writeByte memory cut 0)) start rest := by
  apply terminated_congr spelled
  intro i within
  apply read_write_other
  rw [u32, u32, Nat.mod_eq_of_lt (by omega), Nat.mod_eq_of_lt (by omega)]
  omega

theorem cut_stands (fits : s + text.length < 2 ^ 32) {stop : Nat} (inside : stop < text.length)
    (spelled : Terminated (readByte memory) (s + stop) (text.drop stop)) :
    Stands s text (stop + 1) (writeByte memory (s + stop) 0) (s + (stop + 1)) := by
  have rest := terminated_drop spelled 1 (by rw [List.length_drop]; omega)
  rw [List.drop_drop, Nat.add_assoc] at rest
  apply Or.inl
  constructor
  · exact inside
  · constructor
    · rfl
    · apply terminated_behind _ rest (by omega)
      rw [List.length_drop]
      omega

/-- What one call does from a place of the text: it returns the first token and
cuts behind it, or finds no token and leaves the memory alone. -/
inductive CallDone (s : Nat) (text set : List Byte) (place : Nat) (memory : Memory) :
    Nat × TokenState → Prop where
  | token (start length next : Nat) (first : FirstToken (· ∈ set) text place start length)
      (stands : Stands s text (start + length + 1) (cutBehind s text memory (start, length)) next) :
      CallDone s text set place memory
        (s + start, ⟨cutBehind s text memory (start, length), next⟩)
  | nothing (later next : Nat) (rest : ∀ i c, place ≤ i → text[i]? = some c → c ∈ set)
      (spent : text.length ≤ later) (stands : Stands s text later memory next) :
      CallDone s text set place memory (0, ⟨memory, next⟩)

theorem first_token_between {place start stop : Nat} (behind : place ≤ start)
    (not_before : start ≤ stop) (inside : stop ≤ text.length) (more : start < text.length)
    (skipped : ∀ i c, place ≤ i → i < start → text[i]? = some c → decide (c ∈ set) = true)
    (starts : ∀ c, text[start]? = some c → decide (c ∈ set) ≠ true)
    (free : ∀ i c, start ≤ i → i < stop → text[i]? = some c → decide (c ∈ set) = false)
    (ends : ∀ c, text[stop]? = some c → decide (c ∈ set) ≠ false) :
    FirstToken (· ∈ set) text place start (stop - start) := by
  have last : start + (stop - start) = stop := Nat.add_sub_cancel' not_before
  have symbol := List.getElem?_eq_getElem more
  have nonempty : 0 < stop - start := by
    by_contra zero
    obtain rfl : stop = start := by omega
    exact starts _ symbol (eq_true_of_ne_false (ends _ symbol))
  refine ⟨behind, ?_, nonempty, by omega, ?_, ?_⟩
  · intro i c from_place before symbol
    exact of_decide_eq_true (skipped i c from_place before symbol)
  · intro i c from_start before symbol
    exact of_decide_eq_false (free i c from_start (by omega) symbol)
  · intro c symbol
    rw [last] at symbol
    exact of_decide_eq_true (eq_true_of_ne_false (ends c symbol))

theorem strtok_call (string : StringAt memory delim set) (notNull : 0 < s)
    (fits : s + text.length < 2 ^ 32) (rounds : Nat) (enough : text.length < rounds)
    (setEnough : set.length < rounds) (place earlier str : Nat)
    (stands : Stands s text place memory (if str ≠ 0 then str else earlier)) :
    ∃ done, strtok rounds ⟨memory, earlier⟩ str delim = some done ∧
      CallDone s text set place memory done := by
  rw [strtok]
  dsimp only
  rcases stands with ⟨within, pointer, spelled⟩ | ⟨spent, null⟩
  · obtain ⟨start, skips, behind, startWithin, skipped, starts, tokenSpelled⟩ :=
      skip_in_text string fits rounds enough setEnough true place within spelled
    have startEnd := read_terminator start startWithin tokenSpelled
    rw [pointer, if_neg (show s + place ≠ 0 by omega), skips, Option.bind_eq_bind,
      Option.bind_some]
    by_cases exhausted : start = text.length
    · rw [if_pos (startEnd.mpr exhausted)]
      refine ⟨_, rfl, .nothing start _ ?_ (by omega) (.inl ⟨startWithin, rfl, tokenSpelled⟩)⟩
      intro i c from_place symbol
      have bound := (List.getElem?_eq_some_iff.mp symbol).1
      exact of_decide_eq_true (skipped i c from_place (by omega) symbol)
    obtain ⟨stop, takes, not_before, stopWithin, free, ends, tailSpelled⟩ :=
      skip_in_text string fits rounds enough setEnough false start startWithin tokenSpelled
    have stopEnd := read_terminator stop stopWithin tailSpelled
    have first := first_token_between behind not_before stopWithin (by omega) skipped starts free
      ends
    have last : start + (stop - start) = stop := Nat.add_sub_cancel' not_before
    rw [if_neg (mt startEnd.mp exhausted), takes, Option.bind_some]
    by_cases whole : stop = text.length
    · have kept : cutBehind s text memory (start, stop - start) = memory := by
        rw [cutBehind, last, if_neg (by omega)]
      have stands : Stands s text (start + (stop - start) + 1)
          (cutBehind s text memory (start, stop - start)) 0 := .inr ⟨by omega, rfl⟩
      have done := CallDone.token start (stop - start) 0 first stands
      rw [kept] at done
      rw [if_neg (not_not.mpr (stopEnd.mpr whole))]
      exact ⟨_, rfl, done⟩
    · have cut : cutBehind s text memory (start, stop - start) =
          writeByte memory (s + stop) 0 := by
        rw [cutBehind, last, if_pos (by omega)]
      have stays : u32 (s + stop + 1) = s + (stop + 1) := Nat.mod_eq_of_lt (by omega)
      have stands : Stands s text (start + (stop - start) + 1)
          (cutBehind s text memory (start, stop - start)) (s + (stop + 1)) := by
        rw [cut, last]
        exact cut_stands fits (by omega) tailSpelled
      have done := CallDone.token start (stop - start) _ first stands
      rw [cut] at done
      rw [if_pos (mt stopEnd.mp whole), stays]
      exact ⟨_, rfl, done⟩
  · rw [null, if_pos rfl]
    refine ⟨_, rfl, .nothing place 0 ?_ (by omega) (.inr ⟨spent, rfl⟩)⟩
    intro i c from_place symbol
    have bound := (List.getElem?_eq_some_iff.mp symbol).1
    omega

end Calls

section Cuts

variable {s : Nat} {text : List Byte}

theorem cut_keeps_zero (memory : Memory) (span : Nat × Nat) (address : Nat)
    (zero : readByte memory address = 0) : readByte (cutBehind s text memory span) address = 0 := by
  rw [cutBehind]
  split_ifs with cuts
  · by_cases here : u32 address = u32 (s + (span.1 + span.2))
    · rw [readByte, writeByte, if_pos here]
    · rw [read_write_other _ _ _ _ here, zero]
  · exact zero

theorem cuts_keep_zero (memory : Memory) (found : List (Nat × Nat)) (address : Nat)
    (zero : readByte memory address = 0) :
    readByte (found.foldl (cutBehind s text) memory) address = 0 := by
  induction found generalizing memory with
  | nil => exact zero
  | cons span found ih => exact ih _ (cut_keeps_zero memory span address zero)

theorem cuts_terminate (memory : Memory) (found : List (Nat × Nat)) (span : Nat × Nat)
    (member : span ∈ found) (cuts : span.1 + span.2 < text.length) :
    readByte (found.foldl (cutBehind s text) memory) (s + (span.1 + span.2)) = 0 := by
  induction found generalizing memory with
  | nil => cases member
  | cons other found ih =>
      rcases List.mem_cons.mp member with rfl | later
      · rw [List.foldl_cons]
        apply cuts_keep_zero
        rw [cutBehind, if_pos cuts, read_write_same]
      · exact ih _ later

theorem cuts_elsewhere (memory : Memory) (found : List (Nat × Nat)) (address : Nat)
    (fits : s + text.length < 2 ^ 32) (below : address < 2 ^ 32)
    (elsewhere : ∀ span ∈ found, address ≠ s + (span.1 + span.2)) :
    readByte (found.foldl (cutBehind s text) memory) address = readByte memory address := by
  induction found generalizing memory with
  | nil => rfl
  | cons span found ih =>
      obtain ⟨here, later⟩ := List.forall_mem_cons.mp elsewhere
      rw [List.foldl_cons, ih _ later, cutBehind]
      split_ifs with cuts
      · apply read_write_other
        rw [u32, u32, Nat.mod_eq_of_lt below, Nat.mod_eq_of_lt (by omega)]
        exact here
      · rfl

theorem token_terminated {memory : Memory} {found : List (Nat × Nat)}
    (string : StringAt memory s text)
    (ordered : found.Pairwise fun earlier later => earlier.1 + earlier.2 < later.1)
    (inside : ∀ span ∈ found, span.1 + span.2 ≤ text.length) (span : Nat × Nat)
    (member : span ∈ found) :
    Terminated (readByte (found.foldl (cutBehind s text) memory)) (s + span.1)
      ((text.drop span.1).take span.2) := by
  have within := inside span member
  have fits := string.fits
  have length : ((text.drop span.1).take span.2).length = span.2 := by
    rw [List.length_take, List.length_drop]
    omega
  apply terminated_of_get
  · intro i c symbol
    have bound := (List.getElem?_eq_some_iff.mp symbol).1
    rw [List.getElem?_take_of_lt (by omega), List.getElem?_drop] at symbol
    obtain ⟨inText, equal⟩ := List.getElem?_eq_some_iff.mp symbol
    have kept := cuts_elsewhere memory found (s + span.1 + i) fits (by omega) fun other among => by
      have apart := ordered_apart ordered member among
      rcases apart with rfl | before | behind <;> omega
    have original := terminated_get string.spelled (span.1 + i) inText
    rw [← Nat.add_assoc, equal] at original
    refine ⟨kept.trans original, ?_⟩
    rw [← equal]
    exact terminated_no_zero string.spelled _ (List.getElem_mem _)
  · rw [length, Nat.add_assoc]
    by_cases cuts : span.1 + span.2 < text.length
    · exact cuts_terminate memory found span member cuts
    · have last : span.1 + span.2 = text.length := by omega
      rw [last]
      exact cuts_keep_zero memory found _ (terminated_end string.spelled)

end Cuts

section Runs

variable {s : Nat} {text : List Byte} {rounds : Nat}

/-- A run of calls takes the tokens of the text; where one call finds none, the
place it leaves is spent and every further call returns the null pointer. -/
theorem calls_split (notNull : 0 < s) (fits : s + text.length < 2 ^ 32)
    (enough : text.length < rounds) (memory : Memory) (calls : List (Nat × List Byte))
    (place earlier str : Nat)
    (stands : Stands s text place memory (if str ≠ 0 then str else earlier))
    (delimiters : DelimitersHold rounds ⟨memory, earlier⟩ str calls)
    (setsEnough : ∀ call ∈ calls, call.2.length < rounds) :
    ∃ found next, Splits text place (calls.map fun call c => c ∈ call.2) found ∧
      strtokCalls rounds ⟨memory, earlier⟩ str (calls.map Prod.fst) =
        some (found.map (fun span => s + span.1) ++
            List.replicate (calls.length - found.length) 0,
          ⟨found.foldl (cutBehind s text) memory, next⟩) := by
  induction calls generalizing memory place earlier str with
  | nil => exact ⟨[], earlier, .unasked place, rfl⟩
  | cons call calls ih =>
      obtain ⟨delim, set⟩ := call
      obtain ⟨setEnough, laterEnough⟩ := List.forall_mem_cons.mp setsEnough
      obtain ⟨done, result, call⟩ := strtok_call delimiters.1 notNull fits rounds enough setEnough
        place earlier str stands
      have further := delimiters.2 _ _ result
      rw [List.map_cons, List.map_cons, strtokCalls, result, Option.bind_eq_bind,
        Option.bind_some]
      dsimp only
      cases call with
      | token start length next first stands =>
          obtain ⟨found, final, splits, results⟩ :=
            ih _ (start + length + 1) next 0 stands further laterEnough
          refine ⟨(start, length) :: found, final, .token _ _ _ _ _ _ first splits, ?_⟩
          dsimp only
          rw [results, List.length_cons, List.length_cons, Nat.add_sub_add_right]
          rfl
      | nothing later next rest laterSpent stands =>
          obtain ⟨found, final, splits, results⟩ :=
            ih memory later next 0 stands further laterEnough
          obtain rfl := splits_spent splits laterSpent
          refine ⟨[], final, .exhausted _ _ _ rest, ?_⟩
          dsimp only
          rw [results]
          rfl

theorem cut_keeps_string {memory : Memory} {delim : Nat} {set : List Byte}
    (string : StringAt memory delim set) (fits : s + text.length < 2 ^ 32)
    (apart : delim + set.length < s ∨ s + text.length ≤ delim) (span : Nat × Nat) :
    StringAt (cutBehind s text memory span) delim set := by
  have setFits := string.fits
  refine ⟨terminated_congr string.spelled ?_, string.not_null, setFits⟩
  intro i within
  rw [cutBehind]
  split_ifs with cuts
  · apply read_write_other
    rw [u32, u32, Nat.mod_eq_of_lt (by omega), Nat.mod_eq_of_lt (by omega)]
    omega
  · rfl

theorem delimiters_apart_hold (notNull : 0 < s) (fits : s + text.length < 2 ^ 32)
    (enough : text.length < rounds) (memory : Memory) (calls : List (Nat × List Byte))
    (place earlier str : Nat)
    (stands : Stands s text place memory (if str ≠ 0 then str else earlier))
    (apart : ∀ call ∈ calls, StringAt memory call.1 call.2 ∧ call.2.length < rounds ∧
      (call.1 + call.2.length < s ∨ s + text.length ≤ call.1)) :
    DelimitersHold rounds ⟨memory, earlier⟩ str calls := by
  induction calls generalizing memory place earlier str with
  | nil => trivial
  | cons call calls ih =>
      obtain ⟨delim, set⟩ := call
      obtain ⟨⟨string, setEnough, -⟩, laterApart⟩ := List.forall_mem_cons.mp apart
      refine ⟨string, ?_⟩
      intro result next returned
      obtain ⟨done, result, call⟩ := strtok_call string notNull fits rounds enough setEnough
        place earlier str stands
      rw [result] at returned
      obtain rfl := Option.some.inj returned
      cases call with
      | token start length after first stands =>
          refine ih _ (start + length + 1) after 0 stands fun call among => ?_
          obtain ⟨strings, callEnough, callApart⟩ := laterApart call among
          exact ⟨cut_keeps_string strings fits callApart _, callEnough, callApart⟩
      | nothing later after rest laterSpent stands => exact ih _ later after 0 stands laterApart

end Runs

theorem stands_at_start {memory : Memory} {s : Nat} {text : List Byte}
    (string : StringAt memory s text) (earlier : Nat) :
    Stands s text 0 memory (if s ≠ 0 then s else earlier) := by
  rw [if_pos (Nat.ne_of_gt string.not_null)]
  exact .inl ⟨Nat.zero_le _, rfl, string.spelled⟩

/-- Calls of `strtok` on a string return its tokens in order, each split off by
the delimiters of its own call, and then the null pointer. The tokens stand
terminated in place, and the cuts behind them are all that is written. Where
the delimiters never change the tokens are all the maximal ones. -/
def SplitInPlace (rounds : Nat) (memory : Memory) (earlier s : Nat) (text : List Byte)
    (calls : List (Nat × List Byte)) : Prop :=
  ∃ found next, Splits text 0 (calls.map fun call c => c ∈ call.2) found ∧
    strtokCalls rounds ⟨memory, earlier⟩ s (calls.map Prod.fst) =
      some (found.map (fun span => s + span.1) ++ List.replicate (calls.length - found.length) 0,
        ⟨found.foldl (cutBehind s text) memory, next⟩) ∧
    (∀ span ∈ found, Terminated (readByte (found.foldl (cutBehind s text) memory))
      (s + span.1) ((text.drop span.1).take span.2)) ∧
    ∀ set, (∀ call ∈ calls, call.2 = set) → AllTokens (· ∈ set) text calls.length found

theorem strtok_splits (rounds : Nat) (memory : Memory) (earlier s : Nat) (text : List Byte)
    (calls : List (Nat × List Byte)) (string : StringAt memory s text)
    (delimiters : DelimitersHold rounds ⟨memory, earlier⟩ s calls)
    (enough : text.length < rounds) (setsEnough : ∀ call ∈ calls, call.2.length < rounds) :
    SplitInPlace rounds memory earlier s text calls := by
  obtain ⟨found, next, splits, results⟩ := calls_split string.not_null string.fits enough memory
    calls 0 earlier s (stands_at_start string earlier) delimiters setsEnough
  refine ⟨found, next, splits, results, ?_, ?_⟩
  · exact token_terminated string (splits_ordered splits) (splits_inside splits)
  · intro set same
    have requests : ∀ request ∈ calls.map fun call c => c ∈ call.2, request = (· ∈ set) := by
      intro request member
      obtain ⟨call, among, rfl⟩ := List.mem_map.mp member
      rw [same call among]
    have all := splits_all_tokens splits requests
    rwa [List.length_map] at all

def splitMemory : Memory := fun address =>
  if address < 8192 then [97, 98, 44, 99].getD (address - 4096) 0
  else if address < 12288 then [44].getD (address - 8192) 0
  else [59].getD (address - 12288) 0

def splitCalls : List (Nat × List Byte) := [(8192, [44]), (8192, [44]), (12288, [59])]

theorem strtok_splits_three :
    StringAt splitMemory 4096 [97, 98, 44, 99] ∧
      DelimitersHold 5 ⟨splitMemory, 0⟩ 4096 splitCalls ∧
      SplitInPlace 5 splitMemory 0 4096 [97, 98, 44, 99] splitCalls :=
  have string : StringAt splitMemory 4096 [97, 98, 44, 99] :=
    ⟨⟨rfl, by decide, rfl, by decide, rfl, by decide, rfl, by decide, rfl⟩, by decide, by decide⟩
  have comma : StringAt splitMemory 8192 [44] := ⟨⟨rfl, by decide, rfl⟩, by decide, by decide⟩
  have semicolon : StringAt splitMemory 12288 [59] := ⟨⟨rfl, by decide, rfl⟩, by decide, by decide⟩
  have delimiters : DelimitersHold 5 ⟨splitMemory, 0⟩ 4096 splitCalls :=
    delimiters_apart_hold string.not_null string.fits (by decide) splitMemory _ 0 0 4096
      (stands_at_start string 0)
      (List.forall_mem_cons.mpr ⟨⟨comma, by decide, .inr (by decide)⟩,
        List.forall_mem_cons.mpr ⟨⟨comma, by decide, .inr (by decide)⟩,
          List.forall_mem_cons.mpr ⟨⟨semicolon, by decide, .inr (by decide)⟩,
            List.forall_mem_nil _⟩⟩⟩)
  ⟨string, delimiters, strtok_splits _ _ _ _ _ _ string delimiters (by decide) (by decide)⟩

end LumenOS.StringTokens
