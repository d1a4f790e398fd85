import Mathlib.Data.List.Basic

/-!
# Typing a text into lines of one width

A text is typed symbol by symbol: a break opens a line, a symbol that finds its
line full opens one first. The lines left are the pieces between the breaks,
each cut into parts of the width from the left.
-/

namespace LumenOS.LineWrapping

set_option autoImplicit false

variable {Symbol : Type*} (width : Nat) (isBreak : Symbol → Bool)

structure Sheet (Symbol : Type*) where
  finished : List (List Symbol)
  current : List Symbol

def Sheet.lines (sheet : Sheet Symbol) : List (List Symbol) := sheet.finished ++ [sheet.current]

def Sheet.blank : Sheet Symbol := ⟨[], []⟩

def typeSymbol (sheet : Sheet Symbol) (c : Symbol) : Sheet Symbol :=
  if isBreak c then ⟨sheet.lines, []⟩
  else if sheet.current.length < width then ⟨sheet.finished, sheet.current ++ [c]⟩
  else ⟨sheet.lines, [c]⟩

/-- How many lines a piece takes: one even where there is nothing on it. -/
def rowsTaken (piece : List Symbol) : Nat := max 1 ((piece.length + (width - 1)) / width)

def wrapped (piece : List Symbol) : List (List Symbol) :=
  (List.range (rowsTaken width piece)).map fun row => (piece.drop (row * width)).take width

def layout (text : List Symbol) : List (List Symbol) :=
  (text.splitOnP isBreak).flatMap (wrapped width)

section Symbols

variable {width} {isBreak} {sheet : Sheet Symbol} {c : Symbol}

theorem type_break (breaks : isBreak c = true) :
    typeSymbol width isBreak sheet c = ⟨sheet.lines, []⟩ := if_pos breaks

theorem type_room (other : ¬ isBreak c = true) (room : sheet.current.length < width) :
    typeSymbol width isBreak sheet c = ⟨sheet.finished, sheet.current ++ [c]⟩ :=
  (if_neg other).trans (if_pos room)

theorem type_full (other : ¬ isBreak c = true) (full : ¬ sheet.current.length < width) :
    typeSymbol width isBreak sheet c = ⟨sheet.lines, [c]⟩ :=
  (if_neg other).trans (if_neg full)

end Symbols

variable {width} (positive : 0 < width)

include positive

theorem wrapped_short {piece : List Symbol} (short : piece.length ≤ width) :
    wrapped width piece = [piece] := by
  have rows : rowsTaken width piece = 1 := by
    have few : (piece.length + (width - 1)) / width ≤ 1 := by
      apply Nat.le_of_lt_succ
      apply Nat.div_lt_of_lt_mul
      omega
    unfold rowsTaken
    omega
  unfold wrapped
  rw [rows, List.range_one, List.map_singleton, Nat.zero_mul, List.drop_zero,
    List.take_of_length_le short]

theorem rows_taken_append {first rest : List Symbol} (full : first.length = width)
    (more : rest ≠ []) : rowsTaken width (first ++ rest) = rowsTaken width rest + 1 := by
  have length := List.length_pos_of_ne_nil more
  have split : first.length + rest.length + (width - 1) =
      rest.length + (width - 1) + width := by omega
  have one : 1 ≤ (rest.length + (width - 1)) / width := by
    apply (Nat.one_le_div_iff positive).mpr
    omega
  unfold rowsTaken
  rw [List.length_append, split, Nat.add_div_right _ positive]
  omega

theorem wrapped_full {first rest : List Symbol} (full : first.length = width) (more : rest ≠ []) :
    wrapped width (first ++ rest) = first :: wrapped width rest := by
  unfold wrapped
  rw [rows_taken_append positive full more, List.range_succ_eq_map, List.map_cons, List.map_map]
  congr 1
  · rw [Nat.zero_mul, List.drop_zero, List.take_left' full]
  · apply List.map_congr_left
    intro row _
    have skip : (row + 1) * width = first.length + row * width := by
      rw [full, Nat.succ_mul, Nat.add_comm]
    simp only [Function.comp_apply, Nat.succ_eq_add_one, skip, List.drop_append,
      Nat.add_sub_cancel_left]
    rw [List.drop_of_length_le (Nat.le_add_right _ _), List.nil_append]

theorem typed_lines (text : List Symbol) (sheet : Sheet Symbol)
    (narrow : sheet.current.length ≤ width) :
    (text.foldl (typeSymbol width isBreak) sheet).lines =
      sheet.finished ++ ((text.splitOnP isBreak).modifyHead (sheet.current ++ ·)).flatMap
        (wrapped width) := by
  induction text generalizing sheet with
  | nil =>
      rw [List.splitOnP_nil, List.modifyHead_cons, List.append_nil, List.flatMap_singleton,
        wrapped_short positive narrow]
      rfl
  | cons c text ih =>
      obtain ⟨piece, pieces, pieceIs⟩ :=
        List.exists_cons_of_ne_nil (List.splitOnP_ne_nil isBreak text)
      rw [List.foldl_cons, List.splitOnP_cons_eq_if_modifyHead]
      by_cases breaks : isBreak c = true
      · rw [type_break breaks, if_pos breaks, ih ⟨sheet.lines, []⟩ (Nat.zero_le width), pieceIs]
        simp only [List.modifyHead_cons, List.nil_append, List.append_nil, List.flatMap_cons,
          wrapped_short positive narrow, Sheet.lines, List.append_assoc, List.singleton_append]
      · rw [if_neg breaks, pieceIs, List.modifyHead_cons, List.modifyHead_cons]
        by_cases room : sheet.current.length < width
        · have longer : (sheet.current ++ [c]).length ≤ width := by
            rw [List.length_append, List.length_singleton]
            exact room
          rw [type_room breaks room, ih ⟨sheet.finished, sheet.current ++ [c]⟩ longer, pieceIs,
            List.modifyHead_cons, List.append_assoc, List.singleton_append]
        · have full : sheet.current.length = width := by omega
          rw [type_full breaks room, ih ⟨sheet.lines, [c]⟩ positive, pieceIs]
          simp only [List.modifyHead_cons, List.flatMap_cons, Sheet.lines,
            wrapped_full positive full (List.cons_ne_nil c piece), List.append_assoc,
            List.cons_append]
          rfl

theorem typed_layout (text : List Symbol) :
    (text.foldl (typeSymbol width isBreak) Sheet.blank).lines = layout width isBreak text := by
  have same : (text.splitOnP isBreak).modifyHead ([] ++ ·) = text.splitOnP isBreak := by
    obtain ⟨piece, pieces, pieceIs⟩ :=
      List.exists_cons_of_ne_nil (List.splitOnP_ne_nil isBreak text)
    rw [pieceIs]
    rfl
  rw [typed_lines isBreak positive text Sheet.blank (Nat.zero_le width)]
  unfold layout Sheet.blank
  rw [List.nil_append, same]

end LumenOS.LineWrapping
