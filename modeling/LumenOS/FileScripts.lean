import LumenOS.FileTree

/-!
# Scripts of file operations

A script makes directories where they are missing and writes files whole, and
ends at its first failure. Where it runs to its end nothing it met changes its
kind, so a second run finds a directory at every place the first made or found
one and writes the same files again.
-/

namespace LumenOS.FileScripts

open LumenOS.ByteMemory LumenOS.FileTree

set_option autoImplicit false

inductive Action where
  | ensure (target : List Text)
  | write (target : List Text) (data : List Byte)

def perform (fs : FileSystem) : Action → Option FileSystem
  | .ensure target => ensureDir fs target
  | .write target data => writeFile fs target data

def runScript (actions : List Action) (fs : FileSystem) : Option FileSystem :=
  actions.foldlM perform fs

def Action.written : Action → List (List Text)
  | .ensure _ => []
  | .write target _ => [target]

def written (actions : List Action) : List (List Text) := actions.flatMap Action.written

def isDir : Node → Bool
  | .dir => true
  | .file _ => false

def kind (found : Option Node) : Option Bool := found.map isDir

/-- What is there keeps its kind, and stays as it is where nothing is written. -/
structure Keeps (before after : FileSystem) (places : List (List Text)) : Prop where
  kind : ∀ other node, before other = some node → kind (after other) = some (isDir node)
  node : ∀ other node, before other = some node → other ∉ places → after other = some node

section Steps

variable {fs next final : FileSystem} {action : Action} {actions : List Action}

theorem kind_dir {found : Option Node} (directory : kind found = some true) :
    found = some .dir := by
  cases found with
  | none => cases directory
  | some node =>
      cases node with
      | dir => rfl
      | file content => cases directory

theorem ensure_inverts {target : List Text} (done : ensureDir fs target = some next) :
    next = place fs target .dir ∧ (fs target = none ∨ fs target = some .dir) := by
  unfold ensureDir at done
  cases found : fs target with
  | none =>
      rw [found] at done
      exact ⟨(Option.some.inj done).symm, Or.inl rfl⟩
  | some node =>
      rw [found] at done
      cases node with
      | file content => cases done
      | dir =>
          refine ⟨?_, Or.inr rfl⟩
          rw [← Option.some.inj done]
          funext other
          unfold place
          split_ifs with same
          · rw [same, found]
          · rfl

theorem write_inverts {target : List Text} {data : List Byte}
    (done : writeFile fs target data = some next) :
    next = place fs target (.file data) ∧ target ≠ [] ∧ fs target.dropLast = some .dir ∧
      fs target ≠ some .dir := by
  unfold writeFile at done
  split_ifs at done with allowed
  exact ⟨(Option.some.inj done).symm, allowed⟩

theorem perform_keeps (done : perform fs action = some next) : Keeps fs next action.written := by
  cases action with
  | ensure target =>
      obtain ⟨rfl, before⟩ := ensure_inverts done
      have same : ∀ other node, fs other = some node → place fs target .dir other = some node := by
        intro other node there
        unfold place
        split_ifs with here
        · rw [here] at there
          rw [there] at before
          rcases before with absent | directory
          · cases absent
          · exact directory.symm
        · exact there
      constructor
      · intro other node there
        rw [same other node there]
        rfl
      · intro other node there _
        exact same other node there
  | write target data =>
      obtain ⟨rfl, -, -, noDir⟩ := write_inverts done
      constructor
      · intro other node there
        unfold place
        split_ifs with here
        · rw [here] at there
          cases node with
          | dir => exact absurd there noDir
          | file content => rfl
        · rw [there]
          rfl
      · intro other node there unwritten
        unfold place
        rw [if_neg fun here => unwritten (List.mem_singleton.mpr here)]
        exact there

theorem script_keeps (ran : runScript actions fs = some final) :
    Keeps fs final (written actions) := by
  induction actions generalizing fs with
  | nil =>
      obtain rfl : fs = final := Option.some.inj ran
      constructor
      · intro other node there
        rw [there]
        rfl
      · intro other node there _
        exact there
  | cons action actions ih =>
      rw [runScript, List.foldlM_cons] at ran
      obtain ⟨next, done, onward⟩ := Option.bind_eq_some_iff.mp ran
      have first := perform_keeps done
      have later := ih onward
      constructor
      · intro other node there
        have between := first.kind other node there
        obtain ⟨middle, found, same⟩ := Option.map_eq_some_iff.mp between
        rw [later.kind other middle found, same]
      · intro other node there unwritten
        have apart : other ∉ action.written ∧ other ∉ written actions := by
          rw [written, List.flatMap_cons, List.mem_append, not_or] at unwritten
          exact unwritten
        exact later.node other node (first.node other node there apart.1) apart.2

theorem ensure_again {target : List Text} (directory : kind (fs target) = some true) :
    ensureDir fs target = some fs := by
  unfold ensureDir
  rw [kind_dir directory]

theorem parent_other {target : List Text} (proper : target ≠ []) : target.dropLast ≠ target := by
  intro same
  have lengths := congrArg List.length same
  have positive := List.length_pos_iff.mpr proper
  rw [List.length_dropLast] at lengths
  omega

/-- A file that has been written can be written where kinds are as they were left. -/
theorem write_again {target : List Text} {data : List Byte} {places : List (List Text)}
    (done : writeFile fs target data = some next) (kept : Keeps next final places)
    {other : FileSystem} (alike : ∀ spot, kind (other spot) = kind (final spot)) :
    writeFile other target data = some (place other target (.file data)) ∧
      ∀ spot, kind (place other target (.file data) spot) = kind (final spot) := by
  obtain ⟨rfl, proper, parent, -⟩ := write_inverts done
  have file : kind (final target) = some false := kept.kind target _ (if_pos rfl)
  have above : place fs target (.file data) target.dropLast = some .dir :=
    (if_neg (parent_other proper)).trans parent
  have otherAbove : other target.dropLast = some .dir :=
    kind_dir ((alike _).trans (kept.kind _ .dir above))
  have otherFile : other target ≠ some .dir := by
    intro directory
    have kinds := (alike target).trans file
    rw [directory] at kinds
    cases kinds
  refine ⟨if_pos ⟨proper, otherAbove, otherFile⟩, ?_⟩
  intro spot
  unfold place
  split_ifs with here
  · rw [here, file]
    rfl
  · exact alike spot

/-- Where everything is of the kind a script has left it, the script runs again to
its end, and leaves the same as before at the places it writes. -/
theorem script_replays (ran : runScript actions fs = some final) {other : FileSystem}
    (alike : ∀ target, kind (other target) = kind (final target)) :
    ∃ last, runScript actions other = some last ∧
      ∀ target, last target = if target ∈ written actions then final target else other target := by
  induction actions generalizing fs other with
  | nil => exact ⟨other, rfl, fun target => (if_neg List.not_mem_nil).symm⟩
  | cons action actions ih =>
      rw [runScript, List.foldlM_cons] at ran
      obtain ⟨next, done, onward⟩ := Option.bind_eq_some_iff.mp ran
      have kept := script_keeps onward
      cases action with
      | ensure target =>
          obtain ⟨rfl, -⟩ := ensure_inverts done
          have made : kind (final target) = some true := kept.kind target .dir (if_pos rfl)
          obtain ⟨last, runs, left⟩ := ih onward alike
          refine ⟨last, ?_, left⟩
          rw [runScript, List.foldlM_cons]
          change (ensureDir other target).bind _ = _
          rw [ensure_again ((alike target).trans made)]
          exact runs
      | write target data =>
          obtain ⟨again, still⟩ := write_again done kept alike
          obtain ⟨last, runs, left⟩ := ih onward still
          refine ⟨last, ?_, ?_⟩
          · rw [runScript, List.foldlM_cons]
            change (writeFile other target data).bind _ = _
            rw [again]
            exact runs
          · intro spot
            rw [left spot]
            change _ = if spot ∈ target :: written actions then final spot else other spot
            by_cases later : spot ∈ written actions
            · rw [if_pos later, if_pos (List.mem_cons_of_mem target later)]
            · rw [if_neg later]
              by_cases here : spot = target
              · obtain ⟨rfl, -⟩ := write_inverts done
                rw [here] at later ⊢
                rw [if_pos List.mem_cons_self, kept.node target _ (if_pos rfl) later]
                exact if_pos rfl
              · rw [if_neg (by rw [List.mem_cons]; exact not_or.mpr ⟨here, later⟩)]
                exact if_neg here

theorem script_repeats (ran : runScript actions fs = some final) :
    runScript actions final = some final := by
  obtain ⟨last, runs, left⟩ := script_replays ran fun _ => rfl
  rw [runs]
  apply congrArg some
  funext target
  rw [left target, ite_self]

end Steps

section Operations

/-- The operation fails on all file systems, or performs one script on all. -/
def Scripted (operation : FileSystem → Option FileSystem) : Prop :=
  (∀ fs, operation fs = none) ∨ ∃ actions, ∀ fs, operation fs = runScript actions fs

theorem scripted_repeats {operation : FileSystem → Option FileSystem}
    (scripted : Scripted operation) {fs final : FileSystem} (done : operation fs = some final) :
    operation final = some final := by
  rcases scripted with fails | ⟨actions, performs⟩
  · rw [fails fs] at done
    cases done
  · rw [performs] at done ⊢
    exact script_repeats done

theorem scripted_bind {first second : FileSystem → Option FileSystem} (one : Scripted first)
    (two : Scripted second) : Scripted fun fs => (first fs).bind second := by
  rcases one with fails | ⟨before, performs⟩
  · apply Or.inl
    intro fs
    dsimp only
    rw [fails fs, Option.bind_none]
  · rcases two with fails | ⟨after, continues⟩
    · apply Or.inl
      intro fs
      dsimp only
      cases first fs with
      | none => rfl
      | some next => exact fails next
    · refine Or.inr ⟨before ++ after, fun fs => ?_⟩
      dsimp only
      rw [performs, runScript, runScript, List.foldlM_append]
      exact Option.bind_congr fun next _ => continues next

theorem scripted_all {Item : Type} {operation : FileSystem → Item → Option FileSystem}
    (each : ∀ item, Scripted fun fs => operation fs item) (items : List Item) :
    Scripted fun fs => items.foldlM operation fs := by
  induction items with
  | nil => exact Or.inr ⟨[], fun _ => rfl⟩
  | cons item items ih =>
      simp only [List.foldlM_cons]
      exact scripted_bind (each item) ih

theorem makedirs_scripted (cwd : List Text) (path : Text) :
    Scripted fun fs => makedirs fs cwd path := by
  unfold makedirs
  split_ifs
  · exact Or.inl fun _ => rfl
  · refine Or.inr ⟨(madePlaces cwd path).map .ensure, fun fs => ?_⟩
    rw [runScript, List.foldlM_map]
    rfl

theorem write_scripted (target : List Text) (data : List Byte) :
    Scripted fun fs => writeFile fs target data := by
  refine Or.inr ⟨[.write target data], fun fs => ?_⟩
  rw [runScript, List.foldlM_cons]
  exact (Option.bind_fun_some _).symm

end Operations

end LumenOS.FileScripts
