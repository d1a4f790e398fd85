import LumenOS.LufsConfinement

/-!
# Reading any image comes to an end

The counter that the calls of one traversal share bounds how deep it goes and how
many entries it handles, whatever the tables hold. What a traversal gives at one
depth it gives at every greater one, so the outcome of `main` on an image is the
same at every depth that its entry count allows.
-/

namespace LumenOS.LufsTotality

open LumenOS.ByteMemory LumenOS.FileTree LumenOS.LufsModel LumenOS.LufsTraversal
open LumenOS.LufsConfinement LumenOS.StepRuns

set_option autoImplicit false

section Depth

variable {κ σ : Type} {visitor : Visitor κ σ}
  {shallow deep : Nat → Int → κ → Walk σ → Option (Walk σ)}

theorem descend_deeper
    (below : ∀ offset count context walk,
      Extends (shallow offset count context walk) (deep offset count context walk))
    (context : κ) (entry : TableEntry) (walk : Walk σ) :
    Extends (descend visitor shallow context entry walk)
      (descend visitor deep context entry walk) := by
  unfold descend
  split
  · dsimp only
    split
    · apply below
    · apply extends_refl
  · apply extends_refl

theorem walk_rows_deeper
    (below : ∀ offset count context walk,
      Extends (shallow offset count context walk) (deep offset count context walk))
    (maxEntries : Nat) (context : κ) (table : List TableEntry) (names : List Text)
    (walk : Walk σ) :
    Extends (walkRows visitor shallow maxEntries context table names walk)
      (walkRows visitor deep maxEntries context table names walk) := by
  induction table generalizing names walk with
  | nil => apply extends_refl
  | cons entry table ih =>
      rw [walk_rows_cons, walk_rows_cons]
      split
      · apply extends_refl
      · split
        · apply ih
        · apply extends_bind (extends_refl _)
          intro effect
          apply extends_bind (descend_deeper below context entry _)
          intro walk
          apply ih

/-- The depth that Python allows matters only while it is too small. -/
theorem walk_table_deeper (image : List Byte) (maxEntries : Nat) {fuel more : Nat}
    (deeper : fuel ≤ more) (offset : Nat) (count : Int) (context : κ) (walk : Walk σ) :
    Extends (walkTable visitor image maxEntries fuel offset count context walk)
      (walkTable visitor image maxEntries more offset count context walk) := by
  induction fuel generalizing more offset count context walk with
  | zero =>
      intro final ran
      cases ran
  | succ fuel ih =>
      cases more with
      | zero => omega
      | succ more =>
          rw [walkTable, walkTable]
          apply walk_rows_deeper
          intro offset count context walk
          exact ih (Nat.le_of_succ_le_succ deeper) offset count context walk

end Depth

section Kept

variable {κ σ : Type} {visitor : Visitor κ σ} {maxEntries : Nat} {kept : Nat → σ → Prop}

/-- What a visit keeps of the counter and the effect, while there is room. -/
def VisitKeeps (visitor : Visitor κ σ) (maxEntries : Nat) (kept : Nat → σ → Prop) : Prop :=
  ∀ context entry handled effect after, handled < maxEntries → kept handled effect →
    visitor.visit context entry effect = some after → kept (handled + 1) after

def StepKeeps (kept : Nat → σ → Prop) (next : Walk σ → Option (Walk σ)) : Prop :=
  ∀ walk final, kept walk.handled walk.effect → next walk = some final →
    kept final.handled final.effect

variable {recurse : Nat → Int → κ → Walk σ → Option (Walk σ)}

theorem descend_keeps
    (below : ∀ offset count context, StepKeeps kept (recurse offset count context))
    (context : κ) (entry : TableEntry) :
    StepKeeps kept (descend visitor recurse context entry) := by
  intro walk final before ran
  unfold descend at ran
  split at ran
  · dsimp only at ran
    split at ran
    · exact below _ _ _ _ final (by exact before) ran
    · cases ran
      exact before
  · cases ran
    exact before

theorem walk_rows_keeps (visits : VisitKeeps visitor maxEntries kept)
    (below : ∀ offset count context, StepKeeps kept (recurse offset count context))
    (context : κ) (table : List TableEntry) (names : List Text) :
    StepKeeps kept (walkRows visitor recurse maxEntries context table names) := by
  induction table generalizing names with
  | nil =>
      intro walk final before ran
      cases ran
      exact before
  | cons entry table ih =>
      intro walk final before ran
      rw [walk_rows_cons] at ran
      split at ran
      · cases ran
        exact before
      · rename_i room
        split at ran
        · exact ih names walk final before ran
        · obtain ⟨effect, visited, ran⟩ := Option.bind_eq_some_iff.mp ran
          obtain ⟨middle, descended, ran⟩ := Option.bind_eq_some_iff.mp ran
          have stepped := visits context entry walk.handled walk.effect effect
            (Nat.lt_of_not_ge room) before visited
          have inner := descend_keeps below context entry _ middle stepped descended
          exact ih (entry.name :: names) middle final inner ran

/-- The rule of invariants for traversals: what each visit keeps, they keep. -/
theorem walk_table_keeps (visits : VisitKeeps visitor maxEntries kept) (image : List Byte)
    (fuel offset : Nat) (count : Int) (context : κ) :
    StepKeeps kept (walkTable visitor image maxEntries fuel offset count context) := by
  induction fuel generalizing offset count context with
  | zero =>
      intro walk final _ ran
      cases ran
  | succ fuel ih =>
      intro walk final before ran
      rw [walkTable] at ran
      exact walk_rows_keeps visits ih context _ [] walk final before ran

end Kept

section Counted

variable {κ ι : Type} {visitor : Visitor κ (List ι)}

def Records (visitor : Visitor κ (List ι)) : Prop :=
  ∀ context entry items, ∃ item, visitor.visit context entry items = some (items ++ [item])

theorem print_records : Records printVisitor :=
  fun indent entry _ => ⟨entryLine indent entry.isfile entry.name, rfl⟩

theorem entry_records : Records entryVisitor := fun basePath entry _ => ⟨(basePath, entry), rfl⟩

/-- One item for each entry handled, and no more entries than allowed. -/
def Counted (maxEntries handled : Nat) (items : List ι) : Prop :=
  items.length = handled ∧ handled ≤ maxEntries

theorem visit_counts (records : Records visitor) (maxEntries : Nat) :
    VisitKeeps visitor maxEntries (Counted maxEntries) := by
  intro context entry handled items after room before visited
  obtain ⟨item, added⟩ := records context entry items
  rw [added] at visited
  cases visited
  constructor
  · simp [before.1]
  · exact room

/-- A traversal that records one item an entry gives the same record at every
depth above the bound, and the record keeps the bound. -/
theorem walk_table_counts (records : Records visitor) (image : List Byte)
    (maxEntries offset : Nat) (count : Int) (context : κ) :
    ∃ items : List ι, items.length ≤ maxEntries ∧ ∀ fuel, maxEntries < fuel →
      (walkTable visitor image maxEntries fuel offset count context ⟨[], 0, []⟩).map Walk.effect =
        some items := by
  have total : ∀ context entry items, ∃ after, visitor.visit context entry items = some after := by
    intro context entry items
    obtain ⟨item, added⟩ := records context entry items
    exact ⟨_, added⟩
  obtain ⟨final, ended, _⟩ := walk_table_ends total image offset count context ⟨[], 0, []⟩
    (Nat.zero_le maxEntries) (show maxEntries < 0 + (maxEntries + 1) by simp)
  have counted := walk_table_keeps (visit_counts records maxEntries) image (maxEntries + 1) offset
    count context ⟨[], 0, []⟩ final ⟨rfl, Nat.zero_le maxEntries⟩ ended
  use final.effect
  constructor
  · rw [counted.1]
    exact counted.2
  · intro fuel enough
    rw [walk_table_deeper image maxEntries enough offset count context _ final ended]
    simp

end Counted

section Main

variable {σ : Type}

/-- The traversal of `extract_all` where handling an entry does anything at all
to the files, or raises. -/
def performVisitor (perform : Text → TableEntry → σ → Option σ) : Visitor Text σ where
  select := entryVisitor.select
  visit := perform
  child := entryVisitor.child
  descends := entryVisitor.descends

def performAll (perform : Text → TableEntry → σ → Option σ) (start : σ)
    (entries : List (Text × TableEntry)) : Option σ :=
  entries.foldlM (fun files handled => perform handled.1 handled.2 files) start

theorem perform_simulates (perform : Text → TableEntry → σ → Option σ) (start : σ) :
    Simulates (performAll perform start) entryVisitor (performVisitor perform) := by
  constructor
  · rfl
  · rfl
  · rfl
  · intro basePath entry entries
    change performAll perform start (entries ++ [(basePath, entry)]) = _
    unfold performAll
    rw [List.foldlM_append]
    simp [performVisitor]

theorem perform_runs (perform : Text → TableEntry → σ → Option σ) (start : σ) (image : List Byte)
    (fuel maxEntries offset : Nat) (count : Int) (basePath : Text) :
    (walkTable (performVisitor perform) image maxEntries fuel offset count basePath
        ⟨[], 0, start⟩).map Walk.effect =
      (handledEntries image fuel maxEntries offset count basePath).bind
        (performAll perform start) := by
  unfold handledEntries
  rw [Option.bind_map]
  exact walk_table_viewed (perform_simulates perform start) image maxEntries fuel offset count
    basePath rfl

/-- What `main` prints where it extracts. -/
def report (image : List Byte) (outdir : Text) (lines : List Text) : List Text :=
  ["=== Filesystem metadata ===".toList,
    "Entry count: ".toList ++ (toString (entryCount image)).toList] ++
    ["=== Filesystem contents ===".toList] ++ lines ++ ["\nExtracting to: ".toList ++ outdir]

/-- As `main` calls them, `print_tree` prints the lines and `extract_all` handles
the entries, whatever that does to the files. `main` then ends, unless an
operation on the files raises. -/
structure Reads (image : List Byte) (outdir : Text) (lines : List Text)
    (entries : List (Text × TableEntry)) (fuel : Nat) : Prop where
  printed : (printTree image fuel (entryCount image - 1) sectorSize (entryCount image)).map
    Walk.effect = some lines
  handled : mainEntries image fuel outdir = some entries
  performed : ∀ {σ : Type} (perform : Text → TableEntry → σ → Option σ) (start : σ),
    (walkTable (performVisitor perform) image (entryCount image - 1) fuel sectorSize
      (entryCount image) outdir ⟨[], 0, start⟩).map Walk.effect = performAll perform start entries
  extracted : ∀ cwd fs,
    (extractAll image cwd fuel (entryCount image - 1) sectorSize (entryCount image) outdir fs).map
      Walk.effect = performAll (extractVisitor image cwd).visit fs entries
  returned : ∀ cwd fs, main fuel cwd outdir image fs =
    (FileTree.makedirs fs cwd outdir).bind fun ready =>
      (performAll (extractVisitor image cwd).visit ready entries).map fun left =>
        (report image outdir lines, left)

theorem main_accepted {image : List Byte} (accepted : image.take 4 = [0x4C, 0x75, 0x46, 0x53])
    (whole : (readAt image 4 4).length = 4) (nonempty : entryCount image ≠ 0) (fuel : Nat)
    (cwd : List Text) (outdir : Text) (fs : FileSystem) :
    main fuel cwd outdir image fs =
      ((printTree image fuel (entryCount image - 1) sectorSize (entryCount image)).map
          Walk.effect).bind fun lines =>
        (FileTree.makedirs fs cwd outdir).bind fun ready =>
          ((extractAll image cwd fuel (entryCount image - 1) sectorSize (entryCount image) outdir
            ready).map Walk.effect).map fun left => (report image outdir lines, left) := by
  unfold main
  rw [if_neg (fun different => different accepted), if_neg (fun short => short whole)]
  dsimp only
  change (if entryCount image = 0 then _ else _) = _
  rw [if_neg nonempty, Option.bind_map]
  apply Option.bind_congr
  intro printed _
  apply Option.bind_congr
  intro ready _
  rw [Option.map_map]
  exact (Option.map_eq_bind ..).symm

/-- Every image with at least one entry is read to the end, at every depth from
the entry count on, and no more entries than the count without the root's are
printed and handled. -/
theorem rdfs_total {image : List Byte} (accepted : image.take 4 = [0x4C, 0x75, 0x46, 0x53])
    (whole : (readAt image 4 4).length = 4) (nonempty : entryCount image ≠ 0) (outdir : Text) :
    ∃ lines entries, lines.length ≤ entryCount image - 1 ∧
      entries.length ≤ entryCount image - 1 ∧
      ∀ fuel, entryCount image ≤ fuel → Reads image outdir lines entries fuel := by
  obtain ⟨lines, few, prints⟩ := walk_table_counts print_records image (entryCount image - 1)
    sectorSize (entryCount image) 0
  obtain ⟨entries, bounded, handles⟩ := walk_table_counts entry_records image
    (entryCount image - 1) sectorSize (entryCount image) outdir
  use lines, entries, few, bounded
  intro fuel enough
  have deep : entryCount image - 1 < fuel := by omega
  have printed := prints fuel deep
  have handled := handles fuel deep
  have performed : ∀ {σ : Type} (perform : Text → TableEntry → σ → Option σ) (start : σ),
      (walkTable (performVisitor perform) image (entryCount image - 1) fuel sectorSize
        (entryCount image) outdir ⟨[], 0, start⟩).map Walk.effect =
        performAll perform start entries := by
    intro σ perform start
    rw [perform_runs]
    unfold handledEntries
    rw [handled, Option.bind_some]
  constructor
  · exact printed
  · exact handled
  · exact performed
  · intro cwd fs
    exact performed (extractVisitor image cwd).visit fs
  · intro cwd fs
    rw [main_accepted accepted whole nonempty]
    unfold printTree
    rw [printed, Option.bind_some]
    apply Option.bind_congr
    intro ready _
    apply congrArg
    exact performed (extractVisitor image cwd).visit ready

/-- The table of the entry `d` is the root table again. -/
def ownTable : List Byte :=
  [0x4C, 0x75, 0x46, 0x53, 3, 0, 0, 0] ++ List.replicate 504 0 ++ List.replicate entrySize 0 ++
    ljust 37 [0x64] ++ [1, 0, 0, 0, 1, 0, 0, 0, 0, 0, 97, 0]

theorem rdfs_total_cycle :
    ∃ lines entries, lines.length ≤ entryCount ownTable - 1 ∧
      entries.length ≤ entryCount ownTable - 1 ∧
      ∀ fuel, entryCount ownTable ≤ fuel → Reads ownTable ['o'] lines entries fuel :=
  rdfs_total (by decide +kernel) (by decide +kernel) (by decide +kernel) ['o']

example : (printTree ownTable 3 2 sectorSize 3).map Walk.effect =
    some ["[D] d".toList, "  [D] d".toList] := by
  decide +kernel

end Main

end LumenOS.LufsTotality
