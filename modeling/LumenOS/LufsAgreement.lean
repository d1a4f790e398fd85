import LumenOS.LufsConfinement
import LumenOS.LufsReader
import Mathlib.Data.List.Forall2

/-!
# What is printed and what is extracted

`print_tree` and `extract_all` are written out apart, with a context of their
own each, other rows taken of the root table and other tables entered. They go
the same way through any image whose first row has no name, as the writer
leaves it, so the lines printed are those of the entries extracted.
-/

namespace LumenOS.LufsAgreement

open LumenOS.ByteMemory LumenOS.FileTree LumenOS.LufsModel LumenOS.LufsTraversal
open LumenOS.LufsConfinement

set_option autoImplicit false

section Traversals

variable {κ ι σ τ : Type}

def named (entry : TableEntry) : Bool := decide (entry.name ≠ [])

/-- Two traversals that have met the same tables and handled as many entries. -/
structure Aligned (shows : σ → τ → Prop) (left : Walk σ) (right : Walk τ) : Prop where
  visited : left.visited = right.visited
  handled : left.handled = right.handled
  effect : shows left.effect right.effect

structure Alike (image : List Byte) (below : κ → ι → Prop) (shows : σ → τ → Prop)
    (left : Visitor κ σ) (right : Visitor ι τ) : Prop where
  select : ∀ offset count,
    (left.select offset (readDirTable image offset count)).filter named =
      (right.select offset (readDirTable image offset count)).filter named
  nothing : ∀ offset, left.select offset [] = [] ∧ right.select offset [] = []
  descends : ∀ count, 0 < count → left.descends count = true ∧ right.descends count = true
  child : ∀ context other entry, below context other →
    below (left.child context entry) (right.child other entry)
  visit : ∀ context other entry effect shown, below context other → shows effect shown →
    ∃ after later, left.visit context entry effect = some after ∧
      right.visit other entry shown = some later ∧ shows after later

def Together (shows : σ → τ → Prop) (first : Walk σ → Option (Walk σ))
    (second : Walk τ → Option (Walk τ)) (left : Walk σ) (right : Walk τ) : Prop :=
  ∃ leftEnd rightEnd, first left = some leftEnd ∧ second right = some rightEnd ∧
    Aligned shows leftEnd rightEnd ∧ left.handled ≤ leftEnd.handled

/-- Rows without a name are passed over. -/
theorem walk_rows_named (visitor : Visitor κ σ)
    (recurse : Nat → Int → κ → Walk σ → Option (Walk σ)) (maxEntries : Nat) (context : κ)
    (table : List TableEntry) (names : List Text) (walk : Walk σ) :
    walkRows visitor recurse maxEntries context table names walk =
      walkRows visitor recurse maxEntries context (table.filter named) names walk := by
  induction table generalizing names walk with
  | nil => rfl
  | cons entry rest ih =>
      by_cases nameless : entry.name = []
      · rw [List.filter_cons_of_neg (by simp [named, nameless]), walk_rows_cons]
        split
        · rename_i full
          rw [LufsReader.walk_rows_full _ (Or.inr full)]
        · rw [if_pos (Or.inl nameless)]
          exact ih names walk
      · have further : ∀ names, walkRows visitor recurse maxEntries context rest names =
            walkRows visitor recurse maxEntries context (rest.filter named) names :=
          fun names => funext (ih names)
        rw [List.filter_cons_of_pos (by simp [named, nameless]), walk_rows_cons, walk_rows_cons,
          further, further]

variable {image : List Byte} {below : κ → ι → Prop} {shows : σ → τ → Prop}
  {left : Visitor κ σ} {right : Visitor ι τ}

theorem walk_table_nothing (visitor : Visitor κ σ) (maxEntries fuel offset : Nat)
    (nothing : visitor.select offset [] = []) {count : Int} (empty : count ≤ 0) (context : κ)
    (walk : Walk σ) :
    walkTable visitor image maxEntries (fuel + 1) offset count context walk = some walk := by
  rw [walkTable, Int.toNat_of_nonpos empty, readDirTable, nothing]
  rfl

theorem descend_together (alike : Alike image below shows left right) {maxEntries fuel : Nat}
    (deeper : ∀ offset count context other leftWalk rightWalk, below context other →
      Aligned shows leftWalk rightWalk → leftWalk.handled ≤ maxEntries →
      maxEntries < leftWalk.handled + fuel →
      Together shows (walkTable left image maxEntries fuel offset count context)
        (walkTable right image maxEntries fuel offset count other) leftWalk rightWalk)
    {context : κ} {other : ι} (under : below context other) (entry : TableEntry)
    {leftWalk : Walk σ} {rightWalk : Walk τ} (aligned : Aligned shows leftWalk rightWalk)
    (within : leftWalk.handled ≤ maxEntries) (enough : maxEntries < leftWalk.handled + fuel) :
    Together shows (descend left (walkTable left image maxEntries fuel) context entry)
      (descend right (walkTable right image maxEntries fuel) other entry) leftWalk rightWalk := by
  unfold Together descend
  rw [← aligned.visited]
  split
  · have entered : Aligned shows
        { leftWalk with visited := entry.childOffset :: leftWalk.visited }
        { rightWalk with visited := entry.childOffset :: leftWalk.visited } :=
      ⟨rfl, aligned.handled, aligned.effect⟩
    by_cases positive : 0 < entry.childCount
    · obtain ⟨leftEnters, rightEnters⟩ := alike.descends _ positive
      rw [leftEnters, rightEnters]
      exact deeper _ _ _ _ _ _ (alike.child _ _ entry under) entered within enough
    · obtain ⟨fuel, rfl⟩ : ∃ smaller, fuel = smaller + 1 := ⟨fuel - 1, by omega⟩
      have nothing := alike.nothing entry.childOffset
      have empty : entry.childCount ≤ 0 := Int.not_lt.mp positive
      refine ⟨_, _, ?_, ?_, entered, Nat.le_refl _⟩
      · dsimp only
        rw [walk_table_nothing left maxEntries fuel entry.childOffset nothing.1 empty]
        exact ite_self _
      · dsimp only
        rw [walk_table_nothing right maxEntries fuel entry.childOffset nothing.2 empty]
        exact ite_self _
  · exact ⟨leftWalk, rightWalk, rfl, rfl, aligned, Nat.le_refl _⟩

theorem rows_together (alike : Alike image below shows left right) {maxEntries fuel : Nat}
    (deeper : ∀ offset count context other leftWalk rightWalk, below context other →
      Aligned shows leftWalk rightWalk → leftWalk.handled ≤ maxEntries →
      maxEntries < leftWalk.handled + fuel →
      Together shows (walkTable left image maxEntries fuel offset count context)
        (walkTable right image maxEntries fuel offset count other) leftWalk rightWalk)
    {context : κ} {other : ι} (under : below context other) (table : List TableEntry)
    (names : List Text) {leftWalk : Walk σ} {rightWalk : Walk τ}
    (aligned : Aligned shows leftWalk rightWalk)
    (enough : maxEntries < leftWalk.handled + (fuel + 1)) :
    Together shows
      (walkRows left (walkTable left image maxEntries fuel) maxEntries context table names)
      (walkRows right (walkTable right image maxEntries fuel) maxEntries other table names)
      leftWalk rightWalk := by
  induction table generalizing names leftWalk rightWalk with
  | nil => exact ⟨leftWalk, rightWalk, rfl, rfl, aligned, Nat.le_refl _⟩
  | cons entry rest ih =>
      unfold Together
      rw [walk_rows_cons, walk_rows_cons, ← aligned.handled]
      split
      · exact ⟨leftWalk, rightWalk, rfl, rfl, aligned, Nat.le_refl _⟩
      · rename_i room
        split
        · exact ih names aligned enough
        · obtain ⟨after, later, visited, shown, agree⟩ :=
            alike.visit context other entry leftWalk.effect rightWalk.effect under aligned.effect
          have counted : Aligned shows
              { leftWalk with handled := leftWalk.handled + 1, effect := after }
              { rightWalk with handled := leftWalk.handled + 1, effect := later } :=
            ⟨aligned.visited, rfl, agree⟩
          obtain ⟨leftMiddle, rightMiddle, leftDown, rightDown, middle, grown⟩ :=
            descend_together alike deeper under entry counted (by dsimp only; omega)
              (by dsimp only; omega)
          dsimp only at grown
          obtain ⟨leftEnd, rightEnd, leftRest, rightRest, final, further⟩ :=
            ih (entry.name :: names) middle (by omega)
          refine ⟨leftEnd, rightEnd, ?_, ?_, final, by omega⟩
          · rw [visited, Option.bind_some, leftDown, Option.bind_some, leftRest]
          · rw [shown, Option.bind_some, rightDown, Option.bind_some, rightRest]

theorem walk_table_together (alike : Alike image below shows left right) (maxEntries : Nat)
    {fuel : Nat} (offset : Nat) (count : Int) {context : κ} {other : ι}
    (under : below context other) {leftWalk : Walk σ} {rightWalk : Walk τ}
    (aligned : Aligned shows leftWalk rightWalk) (within : leftWalk.handled ≤ maxEntries)
    (enough : maxEntries < leftWalk.handled + fuel) :
    Together shows (walkTable left image maxEntries fuel offset count context)
      (walkTable right image maxEntries fuel offset count other) leftWalk rightWalk := by
  induction fuel generalizing offset count context other leftWalk rightWalk with
  | zero => omega
  | succ fuel ih =>
      unfold Together
      rw [walkTable, walkTable, walk_rows_named left, walk_rows_named right, ← alike.select]
      apply rows_together alike _ under _ [] aligned enough
      intro offset count context other leftWalk rightWalk under aligned within enough
      exact ih offset count under aligned within enough

end Traversals

section Reader

variable {image : List Byte}

/-- The first row of the root table has no name, if there is one. -/
def RootUnnamed (image : List Byte) : Prop :=
  ∀ entry ∈ (readDirTable image sectorSize 1).head?, entry.name = []

instance (image : List Byte) : Decidable (RootUnnamed image) :=
  inferInstanceAs (Decidable (∀ entry ∈ (readDirTable image sectorSize 1).head?, _))

/-- The line of an entry: as many steps in as there are names joined to the
output directory. -/
def ShowsEntry (outdir : Text) (line : Text) (handled : Text × TableEntry) : Prop :=
  ∃ names : List Text, handled.1 = names.foldl osJoin outdir ∧
    line = entryLine names.length handled.2.isfile handled.2.name

def Below (outdir : Text) (indent : Nat) (path : Text) : Prop :=
  ∃ names : List Text, path = names.foldl osJoin outdir ∧ indent = names.length

theorem tail_named (unnamed : RootUnnamed image) (count : Nat) :
    (readDirTable image sectorSize count).filter named =
      (readDirTable image sectorSize count).tail.filter named := by
  cases count with
  | zero => rfl
  | succ count =>
      unfold RootUnnamed at unnamed
      rw [readDirTable] at unnamed ⊢
      split
      · rfl
      · rename_i whole
        rw [if_neg whole, readDirTable, List.head?_cons] at unnamed
        have nameless := unnamed _ rfl
        rw [List.filter_cons_of_neg (by simp [named, nameless]), List.tail_cons]

theorem print_extract_alike (unnamed : RootUnnamed image) (outdir : Text) :
    Alike image (Below outdir) (List.Forall₂ (ShowsEntry outdir)) printVisitor entryVisitor where
  select offset count := by
    change (readDirTable image offset count).filter named =
      (if offset = sectorSize then (readDirTable image offset count).tail
        else readDirTable image offset count).filter named
    split
    · rename_i root
      rw [root]
      exact tail_named unnamed count
    · rfl
  nothing offset := ⟨rfl, ite_self []⟩
  descends count positive := ⟨rfl, decide_eq_true positive⟩
  child indent path entry under := by
    obtain ⟨names, joined, depth⟩ := under
    refine ⟨names ++ [entry.name], ?_, ?_⟩
    · rw [List.foldl_concat, ← joined]
      rfl
    · rw [List.length_append, List.length_singleton, ← depth]
      rfl
  visit indent path entry lines handled under shown := by
    obtain ⟨names, joined, depth⟩ := under
    refine ⟨_, _, rfl, rfl, List.rel_append shown (List.Forall₂.cons ?_ List.Forall₂.nil)⟩
    exact ⟨names, joined, by rw [depth]⟩

end Reader

end LumenOS.LufsAgreement
