import LumenOS.LufsModel

/-!
# Traversals and what they do

Which entries a traversal handles does not depend on what it does with them:
two visitors that take the same entries and descend alike go the same way, and
the effect of one can be read off the effect of the other. The counter of
handled entries bounds the depth of any traversal, so each one ends.
-/

namespace LumenOS.LufsTraversal

open LumenOS.ByteMemory LumenOS.FileTree LumenOS.LufsModel

set_option autoImplicit false

section Traversals

variable {κ σ τ : Type}

def seenAs (view : σ → Option τ) (walk : Walk σ) : Option (Walk τ) :=
  (view walk.effect).map fun effect => { walk with effect := effect }

/-- Two visitors that go the same way, where the view of one is the other. -/
structure Simulates (view : σ → Option τ) (left : Visitor κ σ) (right : Visitor κ τ) : Prop where
  select : right.select = left.select
  child : right.child = left.child
  descends : right.descends = left.descends
  visit : ∀ context entry effect,
    (left.visit context entry effect).bind view =
      (view effect).bind (right.visit context entry)

variable {view : σ → Option τ} {left : Visitor κ σ} {right : Visitor κ τ}

variable {visited : List Nat} {handled : Nat} {effect : σ}

theorem seen_as_some {shown : τ} (same : view effect = some shown) :
    seenAs view ⟨visited, handled, effect⟩ = some ⟨visited, handled, shown⟩ := by
  unfold seenAs
  rw [same]
  rfl

theorem seen_as_none (raised : view effect = none) :
    seenAs view ⟨visited, handled, effect⟩ = none := by
  unfold seenAs
  rw [raised]
  rfl

section Rows

variable (visitor : Visitor κ σ) (recurse : Nat → Int → κ → Walk σ → Option (Walk σ))
  (context : κ) (entry : TableEntry)

def descend (walk : Walk σ) : Option (Walk σ) :=
  if entry.HasTable ∧ entry.childOffset ∉ walk.visited then
    let walk := { walk with visited := entry.childOffset :: walk.visited }
    if visitor.descends entry.childCount then
      recurse entry.childOffset entry.childCount (visitor.child context entry) walk
    else some walk
  else some walk

theorem walk_rows_cons (maxEntries : Nat) (rest : List TableEntry) (names : List Text)
    (walk : Walk σ) :
    walkRows visitor recurse maxEntries context (entry :: rest) names walk =
      if walk.handled ≥ maxEntries then some walk
      else if entry.name = [] ∨ entry.name ∈ names then
        walkRows visitor recurse maxEntries context rest names walk
      else (visitor.visit context entry walk.effect).bind fun effect =>
        (descend visitor recurse context entry
          { walk with handled := walk.handled + 1, effect := effect }).bind
          (walkRows visitor recurse maxEntries context rest (entry.name :: names)) := by
  rw [walkRows]
  congr 2
  apply congrArg
  funext effect
  unfold descend
  dsimp only
  by_cases table : entry.HasTable ∧ entry.childOffset ∉ walk.visited
  · rw [if_pos table, if_pos table]
  · rw [if_neg table, if_neg table]
    rfl

end Rows

variable {leftBelow : Nat → Int → κ → Walk σ → Option (Walk σ)}
  {rightBelow : Nat → Int → κ → Walk τ → Option (Walk τ)}

theorem descend_seen (simulates : Simulates view left right)
    (below : ∀ offset count context walk,
      (leftBelow offset count context walk).bind (seenAs view) =
        (seenAs view walk).bind (rightBelow offset count context))
    (context : κ) (entry : TableEntry) (walk : Walk σ) :
    (descend left leftBelow context entry walk).bind (seenAs view) =
      (seenAs view walk).bind (descend right rightBelow context entry) := by
  obtain ⟨visited, handled, effect⟩ := walk
  have deeper := below entry.childOffset entry.childCount (left.child context entry)
    ⟨entry.childOffset :: visited, handled, effect⟩
  cases shown : view effect with
  | none =>
      rw [seen_as_none shown] at deeper ⊢
      unfold descend
      split
      · dsimp only
        split
        · exact deeper
        · exact seen_as_none shown
      · exact seen_as_none shown
  | some other =>
      rw [seen_as_some shown] at deeper ⊢
      unfold descend
      rw [Option.bind_some, simulates.descends, simulates.child]
      dsimp only at deeper ⊢
      split
      · split
        · exact deeper
        · exact seen_as_some shown
      · exact seen_as_some shown

/-- One handled entry: the visit, what is below it, and the rest of the table. -/
theorem entry_seen (simulates : Simulates view left right)
    (below : ∀ offset count context walk,
      (leftBelow offset count context walk).bind (seenAs view) =
        (seenAs view walk).bind (rightBelow offset count context))
    {leftRest : Walk σ → Option (Walk σ)} {rightRest : Walk τ → Option (Walk τ)}
    (after : ∀ walk, (leftRest walk).bind (seenAs view) = (seenAs view walk).bind rightRest)
    (context : κ) (entry : TableEntry) (visited : List Nat) (handled : Nat) (effect : σ) :
    ((left.visit context entry effect).bind fun effect =>
        (descend left leftBelow context entry ⟨visited, handled, effect⟩).bind leftRest).bind
        (seenAs view) =
      (view effect).bind fun shown => (right.visit context entry shown).bind fun shown =>
        (descend right rightBelow context entry ⟨visited, handled, shown⟩).bind rightRest := by
  have further : ∀ effect, ((descend left leftBelow context entry
        ⟨visited, handled, effect⟩).bind leftRest).bind (seenAs view) =
      (view effect).bind fun shown =>
        (descend right rightBelow context entry ⟨visited, handled, shown⟩).bind rightRest := by
    intro effect
    calc ((descend left leftBelow context entry ⟨visited, handled, effect⟩).bind leftRest).bind
          (seenAs view)
        = (descend left leftBelow context entry ⟨visited, handled, effect⟩).bind fun walk =>
            (seenAs view walk).bind rightRest := by
          rw [Option.bind_assoc]
          exact Option.bind_congr fun walk _ => after walk
      _ = ((seenAs view ⟨visited, handled, effect⟩).bind
            (descend right rightBelow context entry)).bind rightRest := by
          rw [← descend_seen simulates below, Option.bind_assoc]
      _ = (view effect).bind fun shown =>
            (descend right rightBelow context entry ⟨visited, handled, shown⟩).bind rightRest := by
          unfold seenAs
          rw [Option.bind_map, Option.bind_assoc]
          rfl
  rw [Option.bind_assoc, Option.bind_congr fun after _ => further after, ← Option.bind_assoc,
    simulates.visit, Option.bind_assoc]

theorem walk_rows_seen (simulates : Simulates view left right)
    (below : ∀ offset count context walk,
      (leftBelow offset count context walk).bind (seenAs view) =
        (seenAs view walk).bind (rightBelow offset count context))
    (maxEntries : Nat) (context : κ) (table : List TableEntry) (names : List Text)
    (walk : Walk σ) :
    (walkRows left leftBelow maxEntries context table names walk).bind (seenAs view) =
      (seenAs view walk).bind (walkRows right rightBelow maxEntries context table names) := by
  induction table generalizing names walk with
  | nil =>
      change seenAs view walk = (seenAs view walk).bind some
      cases seenAs view walk <;> rfl
  | cons entry table ih =>
      obtain ⟨visited, handled, effect⟩ := walk
      have handles := entry_seen simulates below (ih (entry.name :: names)) context entry visited
        (handled + 1) effect
      rw [walk_rows_cons]
      dsimp only
      cases shown : view effect with
      | none =>
          rw [shown] at handles
          rw [seen_as_none shown, Option.bind_none]
          split
          · exact seen_as_none shown
          · split
            · rw [ih, seen_as_none shown, Option.bind_none]
            · exact handles
      | some other =>
          rw [shown] at handles
          rw [seen_as_some shown, Option.bind_some, walk_rows_cons]
          dsimp only
          split
          · exact seen_as_some shown
          · split
            · rw [ih, seen_as_some shown, Option.bind_some]
            · exact handles

theorem walk_table_seen (simulates : Simulates view left right) (image : List Byte)
    (maxEntries fuel offset : Nat) (count : Int) (context : κ) (walk : Walk σ) :
    (walkTable left image maxEntries fuel offset count context walk).bind (seenAs view) =
      (seenAs view walk).bind (walkTable right image maxEntries fuel offset count context) := by
  induction fuel generalizing offset count context walk with
  | zero =>
      change none = (seenAs view walk).bind fun _ => none
      cases seenAs view walk <;> rfl
  | succ fuel ih =>
      have same : walkTable right image maxEntries (fuel + 1) offset count context =
          walkRows right (walkTable right image maxEntries fuel) maxEntries context
            (left.select offset (readDirTable image offset count.toNat)) [] := by
        funext walk
        rw [walkTable, simulates.select]
      rw [same, walkTable]
      exact walk_rows_seen simulates ih maxEntries context _ [] walk

theorem walk_table_viewed (simulates : Simulates view left right) (image : List Byte)
    (maxEntries fuel offset : Nat) (count : Int) (context : κ) {first : σ} {shown : τ}
    (same : view first = some shown) :
    (walkTable right image maxEntries fuel offset count context ⟨visited, handled, shown⟩).map
        Walk.effect =
      (walkTable left image maxEntries fuel offset count context ⟨visited, handled, first⟩).bind
        fun walk => view walk.effect := by
  have seen := walk_table_seen simulates image maxEntries fuel offset count context
    ⟨visited, handled, first⟩
  rw [seen_as_some same, Option.bind_some] at seen
  rw [← seen, Option.map_bind]
  apply Option.bind_congr
  intro walk _
  unfold seenAs
  dsimp only [Function.comp_apply]
  cases view walk.effect <;> rfl

def Ends (next : Walk σ → Option (Walk σ)) (walk : Walk σ) : Prop :=
  ∃ final, next walk = some final ∧ walk.handled ≤ final.handled

theorem descend_ends {visitor : Visitor κ σ} {recurse : Nat → Int → κ → Walk σ → Option (Walk σ)}
    {maxEntries fuel : Nat}
    (below : ∀ offset count context walk, walk.handled ≤ maxEntries →
      maxEntries < walk.handled + fuel → Ends (recurse offset count context) walk)
    (context : κ) (entry : TableEntry) (walk : Walk σ) (within : walk.handled ≤ maxEntries)
    (enough : maxEntries < walk.handled + fuel) :
    Ends (descend visitor recurse context entry) walk := by
  unfold Ends descend
  split
  · dsimp only
    split
    · exact below _ _ _ _ within enough
    · exact ⟨_, rfl, Nat.le_refl _⟩
  · exact ⟨walk, rfl, Nat.le_refl _⟩

theorem walk_rows_ends {visitor : Visitor κ σ}
    (total : ∀ context entry effect, ∃ after, visitor.visit context entry effect = some after)
    {recurse : Nat → Int → κ → Walk σ → Option (Walk σ)} {maxEntries fuel : Nat}
    (below : ∀ offset count context walk, walk.handled ≤ maxEntries →
      maxEntries < walk.handled + fuel → Ends (recurse offset count context) walk)
    (context : κ) (table : List TableEntry) (names : List Text) (walk : Walk σ)
    (enough : maxEntries < walk.handled + (fuel + 1)) :
    Ends (walkRows visitor recurse maxEntries context table names) walk := by
  induction table generalizing names walk with
  | nil => exact ⟨walk, rfl, Nat.le_refl _⟩
  | cons entry table ih =>
      unfold Ends
      rw [walk_rows_cons]
      split
      · exact ⟨walk, rfl, Nat.le_refl _⟩
      · rename_i room
        split
        · exact ih names walk enough
        · obtain ⟨after, visited⟩ := total context entry walk.effect
          obtain ⟨middle, descended, grown⟩ := descend_ends below context entry
            { walk with handled := walk.handled + 1, effect := after } (by dsimp only; omega)
            (by dsimp only; omega)
          dsimp only at grown
          obtain ⟨final, ended, later⟩ := ih (entry.name :: names) middle (by omega)
          refine ⟨final, ?_, by omega⟩
          rw [visited, Option.bind_some, descended, Option.bind_some, ended]

/-- The counter bounds the depth, whatever the tables are. -/
theorem walk_table_ends {visitor : Visitor κ σ}
    (total : ∀ context entry effect, ∃ after, visitor.visit context entry effect = some after)
    (image : List Byte) {maxEntries fuel : Nat} (offset : Nat) (count : Int) (context : κ)
    (walk : Walk σ) (within : walk.handled ≤ maxEntries)
    (enough : maxEntries < walk.handled + fuel) :
    Ends (walkTable visitor image maxEntries fuel offset count context) walk := by
  induction fuel generalizing offset count context walk with
  | zero => omega
  | succ fuel ih =>
      have rows := walk_rows_ends total
        (fun offset count context walk => ih offset count context walk) context
        (visitor.select offset (readDirTable image offset count.toNat)) [] walk enough
      obtain ⟨final, ended, grown⟩ := rows
      exact ⟨final, ended, grown⟩

end Traversals

end LumenOS.LufsTraversal
