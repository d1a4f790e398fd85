import LumenOS.LufsLayout
import LumenOS.LufsTraversal
import LumenOS.StepRuns

/-!
# Where extraction writes

Extraction is a run over the entries that the traversal handles, each with the
path above it. A run keeps inside the output directory as long as no entry's
path goes through a place beside it.
-/

namespace LumenOS.LufsConfinement

open LumenOS.ByteMemory LumenOS.FileTree LumenOS.LufsModel LumenOS.LufsTraversal LumenOS.StepRuns

set_option autoImplicit false

/-- What extraction has done so far: the files, the directories it created and
the files it wrote, and whether Python has raised. -/
structure Extraction where
  fs : FileSystem
  made : List (List Text)
  raised : Bool

namespace Extraction

def result (extraction : Extraction) : Option FileSystem :=
  if extraction.raised then none else some extraction.fs

def mkdir (extraction : Extraction) (at_path : List Text) : Extraction :=
  if extraction.raised then extraction
  else match extraction.fs at_path with
    | none =>
        { extraction with
          fs := place extraction.fs at_path .dir
          made := at_path :: extraction.made }
    | some .dir => extraction
    | some (.file _) => { extraction with raised := true }

def makedirs (extraction : Extraction) (cwd : List Text) (path : Text) : Extraction :=
  if path = [] then { extraction with raised := true }
  else run mkdir extraction (madePlaces cwd path)

def write (extraction : Extraction) (at_path : List Text) (data : List Byte) : Extraction :=
  if extraction.raised then extraction
  else match writeFile extraction.fs at_path data with
    | some fs => { extraction with fs := fs, made := at_path :: extraction.made }
    | none => { extraction with raised := true }

def handle (image : List Byte) (cwd : List Text) (extraction : Extraction)
    (handled : Text × TableEntry) : Extraction :=
  let fullPath := osJoin handled.1 handled.2.name
  if handled.2.isfile then
    (extraction.makedirs cwd (dirname fullPath)).write (resolve cwd fullPath)
      (readFileData image handled.2)
  else extraction.makedirs cwd fullPath

end Extraction

open Extraction

section Results

theorem mkdir_result (extraction : Extraction) (at_path : List Text) :
    (extraction.mkdir at_path).result = extraction.result.bind fun fs => ensureDir fs at_path := by
  obtain ⟨fs, made, raised⟩ := extraction
  cases raised with
  | true => rfl
  | false =>
      change Extraction.result (match fs at_path with
        | none => _
        | some .dir => _
        | some (.file _) => _) = ensureDir fs at_path
      unfold ensureDir
      cases fs at_path with
      | none => rfl
      | some node => cases node <;> rfl

theorem makedirs_result (extraction : Extraction) (cwd : List Text) (path : Text) :
    (extraction.makedirs cwd path).result =
      extraction.result.bind fun fs => FileTree.makedirs fs cwd path := by
  have places : ∀ places (extraction : Extraction), (run mkdir extraction places).result =
      extraction.result.bind fun fs => places.foldlM ensureDir fs := by
    intro places
    induction places with
    | nil => exact fun extraction => (Option.bind_fun_some extraction.result).symm
    | cons at_path places ih =>
        intro extraction
        rw [run_cons, ih, mkdir_result, Option.bind_assoc]
        rfl
  unfold Extraction.makedirs FileTree.makedirs
  by_cases empty : path = []
  · simp [empty, result]
  · simp only [if_neg empty]
    exact places _ extraction

theorem write_result (extraction : Extraction) (at_path : List Text) (data : List Byte) :
    (extraction.write at_path data).result =
      extraction.result.bind fun fs => writeFile fs at_path data := by
  obtain ⟨fs, made, raised⟩ := extraction
  cases raised with
  | true => rfl
  | false =>
      change Extraction.result (match writeFile fs at_path data with
        | some fs => _
        | none => _) = writeFile fs at_path data
      cases writeFile fs at_path data <;> rfl

theorem handle_result (image : List Byte) (cwd : List Text) (extraction : Extraction)
    (basePath : Text) (entry : TableEntry) :
    (extraction.handle image cwd (basePath, entry)).result =
      extraction.result.bind ((extractVisitor image cwd).visit basePath entry) := by
  unfold handle extractVisitor
  dsimp only
  cases entry.isfile with
  | true =>
      rw [if_pos rfl, write_result, makedirs_result, Option.bind_assoc]
      rfl
  | false =>
      rw [if_neg Bool.false_ne_true, makedirs_result]
      rfl

end Results

section Runs

def entryVisitor : Visitor Text (List (Text × TableEntry)) where
  select := (extractVisitor [] []).select
  visit basePath entry entries := some (entries ++ [(basePath, entry)])
  child := (extractVisitor [] []).child
  descends := (extractVisitor [] []).descends

def handledEntries (image : List Byte) (fuel maxEntries offset : Nat) (count : Int)
    (basePath : Text) : Option (List (Text × TableEntry)) :=
  (walkTable entryVisitor image maxEntries fuel offset count basePath ⟨[], 0, []⟩).map Walk.effect

theorem handled_entries_exist (image : List Byte) {fuel maxEntries : Nat} (offset : Nat)
    (count : Int) (basePath : Text) (enough : maxEntries < fuel) :
    ∃ entries, handledEntries image fuel maxEntries offset count basePath = some entries := by
  have total : ∀ context entry effect, ∃ after,
      entryVisitor.visit context entry effect = some after := fun _ _ _ => ⟨_, rfl⟩
  obtain ⟨final, ended, _⟩ := walk_table_ends total image offset count basePath ⟨[], 0, []⟩
    (Nat.zero_le maxEntries) (show maxEntries < 0 + fuel by omega)
  unfold handledEntries
  rw [ended]
  exact ⟨final.effect, rfl⟩

def begun (fs : FileSystem) : Extraction := ⟨fs, [], false⟩

def extraction (image : List Byte) (cwd : List Text) (fs : FileSystem)
    (entries : List (Text × TableEntry)) : Extraction :=
  run (handle image cwd) (begun fs) entries

theorem extraction_simulates (image : List Byte) (cwd : List Text) (fs : FileSystem) :
    Simulates (fun entries => (extraction image cwd fs entries).result) entryVisitor
      (extractVisitor image cwd) := by
  refine ⟨rfl, rfl, rfl, ?_⟩
  intro basePath entry entries
  change (extraction image cwd fs (entries ++ [(basePath, entry)])).result = _
  unfold extraction
  rw [run_append, ← handle_result]
  rfl

theorem extract_all_run (image : List Byte) (cwd : List Text) (fuel maxEntries offset : Nat)
    (count : Int) (basePath : Text) (fs : FileSystem) :
    (extractAll image cwd fuel maxEntries offset count basePath fs).map Walk.effect =
      (handledEntries image fuel maxEntries offset count basePath).bind fun entries =>
        (extraction image cwd fs entries).result := by
  unfold extractAll handledEntries
  rw [Option.bind_map]
  exact walk_table_viewed (extraction_simulates image cwd fs) image maxEntries fuel offset count
    basePath rfl

end Runs

section Confinement

variable {cwd : List Text} {outdir : Text}

/-- No place on the entry's path lies beside the output directory: each one is
inside it or is passed on the way to it. -/
def StaysInside (cwd : List Text) (outdir : Text) (handled : Text × TableEntry) : Prop :=
  ∀ target ∈ madePlaces cwd (osJoin handled.1 handled.2.name),
    resolve cwd outdir <+: target ∨ target ∈ madePlaces cwd outdir

structure Confined (cwd : List Text) (outdir : Text) (extraction : Extraction) : Prop where
  way : ∀ target ∈ madePlaces cwd outdir, extraction.fs target = some .dir
  inside : ∀ target ∈ extraction.made, resolve cwd outdir <+: target

theorem Confined.placed {extraction : Extraction} (confined : Confined cwd outdir extraction)
    {target : List Text} {node : Node} (within : resolve cwd outdir <+: target)
    (new : node = .dir ∨ extraction.fs target ≠ some .dir) (raised : Bool) :
    Confined cwd outdir ⟨place extraction.fs target node, target :: extraction.made, raised⟩ := by
  refine ⟨?_, List.forall_mem_cons.mpr ⟨within, confined.inside⟩⟩
  intro other member
  have there := confined.way other member
  dsimp only
  unfold place
  by_cases same : other = target
  · rw [if_pos same]
    rcases new with directory | different
    · rw [directory]
    · rw [same] at there
      exact absurd there different
  · rw [if_neg same]
    exact there

theorem mkdir_confined {extraction : Extraction} {target : List Text}
    (confined : Confined cwd outdir extraction)
    (stays : resolve cwd outdir <+: target ∨ target ∈ madePlaces cwd outdir) :
    Confined cwd outdir (extraction.mkdir target) := by
  unfold mkdir
  split
  · exact confined
  · split
    · rename_i absent
      rcases stays with within | passed
      · exact confined.placed within (Or.inl rfl) _
      · rw [confined.way target passed] at absent
        cases absent
    · exact confined
    · exact ⟨confined.way, confined.inside⟩

theorem makedirs_confined {extraction : Extraction} {path : Text}
    (confined : Confined cwd outdir extraction)
    (stays : path ≠ [] → ∀ target ∈ madePlaces cwd path,
      resolve cwd outdir <+: target ∨ target ∈ madePlaces cwd outdir) :
    Confined cwd outdir (extraction.makedirs cwd path) := by
  unfold Extraction.makedirs
  split
  · exact ⟨confined.way, confined.inside⟩
  · rename_i nonempty
    exact run_invariant (fun _ _ => mkdir_confined) extraction confined _
      (each_step_of_all mkdir extraction (stays nonempty))

theorem write_confined {extraction : Extraction} {target : List Text} {data : List Byte}
    (confined : Confined cwd outdir extraction)
    (stays : resolve cwd outdir <+: target ∨ target ∈ madePlaces cwd outdir) :
    Confined cwd outdir (extraction.write target data) := by
  unfold write writeFile
  split
  · exact confined
  · by_cases free : target ≠ [] ∧ extraction.fs target.dropLast = some .dir ∧
        extraction.fs target ≠ some .dir
    · rw [if_pos free]
      rcases stays with within | passed
      · exact confined.placed within (Or.inr free.2.2) _
      · exact absurd (confined.way target passed) free.2.2
    · rw [if_neg free]
      exact ⟨confined.way, confined.inside⟩

theorem handle_confined (image : List Byte) (extraction : Extraction)
    (handled : Text × TableEntry) (confined : Confined cwd outdir extraction)
    (stays : StaysInside cwd outdir handled) :
    Confined cwd outdir (extraction.handle image cwd handled) := by
  unfold handle
  dsimp only
  split
  · apply write_confined _ (stays _ (resolve_made cwd _))
    apply makedirs_confined confined
    exact fun nonempty target member => stays target ((dirname_places nonempty).1 target member)
  · exact makedirs_confined confined fun _ => stays

end Confinement

section Coverage

/-- From one state to a later one: an exception is final, nothing goes away,
and what has changed is among the places made. -/
structure Grows (before after : Extraction) : Prop where
  raised : before.raised = true → after.raised = true
  kept : ∀ target, before.fs target ≠ none → after.fs target ≠ none
  recorded : ∀ target, after.fs target ≠ before.fs target → target ∈ after.made
  made : ∀ target ∈ before.made, target ∈ after.made

theorem Grows.refl (extraction : Extraction) : Grows extraction extraction :=
  ⟨id, fun _ => id, fun _ changed => absurd rfl changed, fun _ => id⟩

theorem Grows.trans {first second third : Extraction} (one : Grows first second)
    (two : Grows second third) : Grows first third := by
  refine ⟨two.raised ∘ one.raised, fun target there => two.kept target (one.kept target there), ?_,
    fun target member => two.made target (one.made target member)⟩
  intro target changed
  by_cases same : third.fs target = second.fs target
  · apply two.made
    apply one.recorded
    rw [← same]
    exact changed
  · exact two.recorded target same

theorem Grows.raising (extraction : Extraction) :
    Grows extraction { extraction with raised := true } :=
  ⟨fun _ => rfl, fun _ => id, fun _ changed => absurd rfl changed, fun _ => id⟩

theorem Grows.placing (extraction : Extraction) (target : List Text) (node : Node) (raised : Bool)
    (same : extraction.raised = true → raised = true) :
    Grows extraction ⟨place extraction.fs target node, target :: extraction.made, raised⟩ := by
  refine ⟨same, ?_, ?_, fun other => List.mem_cons_of_mem target⟩
  · intro other there
    dsimp only
    unfold place
    split
    · exact Option.some_ne_none node
    · exact there
  · intro other changed
    dsimp only at changed
    unfold place at changed
    by_cases equal : other = target
    · rw [equal]
      exact List.mem_cons_self
    · rw [if_neg equal] at changed
      exact absurd rfl changed

theorem grows_run {Event : Type} {step : Extraction → Event → Extraction}
    (grows : ∀ extraction event, Grows extraction (step extraction event))
    (extraction : Extraction) (events : List Event) :
    Grows extraction (run step extraction events) := by
  apply run_invariant_always (Grows extraction ·) _ extraction (Grows.refl extraction)
  exact fun state event before => before.trans (grows state event)

/-- Unless it raises, a step leaves something at the place it is about. -/
theorem mkdir_covers (extraction : Extraction) (target : List Text) :
    Grows extraction (extraction.mkdir target) ∧
      ((extraction.mkdir target).raised = false → (extraction.mkdir target).fs target ≠ none) := by
  unfold mkdir
  split
  · rename_i raised
    refine ⟨Grows.refl extraction, fun running => ?_⟩
    rw [raised] at running
    cases running
  · split
    · refine ⟨Grows.placing extraction target .dir _ id, fun _ => ?_⟩
      dsimp only
      unfold place
      rw [if_pos rfl]
      exact Option.some_ne_none _
    · rename_i there
      refine ⟨Grows.refl extraction, fun _ => ?_⟩
      rw [there]
      exact Option.some_ne_none _
    · exact ⟨Grows.raising extraction, fun running => by cases running⟩

theorem write_covers (extraction : Extraction) (target : List Text) (data : List Byte) :
    Grows extraction (extraction.write target data) ∧
      ((extraction.write target data).raised = false →
        (extraction.write target data).fs target ≠ none) := by
  unfold write writeFile
  split
  · rename_i raised
    refine ⟨Grows.refl extraction, fun running => ?_⟩
    rw [raised] at running
    cases running
  · by_cases free : target ≠ [] ∧ extraction.fs target.dropLast = some .dir ∧
        extraction.fs target ≠ some .dir
    · rw [if_pos free]
      refine ⟨Grows.placing extraction target _ _ id, fun _ => ?_⟩
      dsimp only
      unfold place
      rw [if_pos rfl]
      exact Option.some_ne_none _
    · rw [if_neg free]
      exact ⟨Grows.raising extraction, fun running => by cases running⟩

theorem Grows.running {before after : Extraction} (grows : Grows before after)
    (running : after.raised = false) : before.raised = false := by
  cases state : before.raised with
  | false => rfl
  | true =>
      rw [grows.raised state] at running
      cases running

/-- What each step covers is still there after the run, unless that raises. -/
theorem run_covers {Event : Type} {step : Extraction → Event → Extraction}
    {covered : Event → List Text → Prop}
    (covers : ∀ extraction event, Grows extraction (step extraction event) ∧
      ((step extraction event).raised = false →
        ∀ target, covered event target → (step extraction event).fs target ≠ none))
    (extraction : Extraction) (events : List Event)
    (running : (run step extraction events).raised = false) :
    ∀ event ∈ events, ∀ target, covered event target →
      (run step extraction events).fs target ≠ none := by
  induction events generalizing extraction with
  | nil => exact fun _ member => absurd member List.not_mem_nil
  | cons event events ih =>
      have later := grows_run (fun extraction event => (covers extraction event).1)
        (step extraction event) events
      refine List.forall_mem_cons.mpr ⟨fun target about => ?_, ih _ running⟩
      exact later.kept target ((covers extraction event).2 (later.running running) target about)

theorem makedirs_covers (extraction : Extraction) (cwd : List Text) (path : Text) :
    Grows extraction (extraction.makedirs cwd path) ∧
      ((extraction.makedirs cwd path).raised = false → path ≠ [] ∧
        ∀ target ∈ madePlaces cwd path, (extraction.makedirs cwd path).fs target ≠ none) := by
  unfold Extraction.makedirs
  split
  · exact ⟨Grows.raising extraction, fun running => by cases running⟩
  · rename_i nonempty
    refine ⟨grows_run (fun extraction target => (mkdir_covers extraction target).1) _ _, ?_⟩
    intro running
    refine ⟨nonempty, fun target member => ?_⟩
    have each : ∀ extraction event, Grows extraction (mkdir extraction event) ∧
        ((mkdir extraction event).raised = false →
          ∀ target, event = target → (mkdir extraction event).fs target ≠ none) := by
      intro extraction event
      obtain ⟨grows, covers⟩ := mkdir_covers extraction event
      refine ⟨grows, fun running target same => ?_⟩
      rw [← same]
      exact covers running
    exact run_covers each extraction _ running target member target rfl

theorem handle_covers (image : List Byte) (cwd : List Text) (extraction : Extraction)
    (handled : Text × TableEntry) :
    Grows extraction (extraction.handle image cwd handled) ∧
      ((extraction.handle image cwd handled).raised = false →
        ∀ target, target ∈ madePlaces cwd (osJoin handled.1 handled.2.name) →
          (extraction.handle image cwd handled).fs target ≠ none) := by
  unfold handle
  dsimp only
  split
  · obtain ⟨above, covered⟩ := makedirs_covers extraction cwd
      (dirname (osJoin handled.1 handled.2.name))
    obtain ⟨grows, written⟩ := write_covers
      (extraction.makedirs cwd (dirname (osJoin handled.1 handled.2.name)))
      (resolve cwd (osJoin handled.1 handled.2.name)) (readFileData image handled.2)
    refine ⟨above.trans grows, fun running target member => ?_⟩
    obtain ⟨nonempty, there⟩ := covered (grows.running running)
    rcases (dirname_places nonempty).2 target member with before | last
    · exact grows.kept target (there target before)
    · rw [last]
      exact written running
  · obtain ⟨grows, covered⟩ := makedirs_covers extraction cwd (osJoin handled.1 handled.2.name)
    exact ⟨grows, fun running => (covered running).2⟩

end Coverage

section Main

def entryCount (image : List Byte) : Nat := decodeLE (readAt image 4 4)

def mainEntries (image : List Byte) (fuel : Nat) (outdir : Text) :
    Option (List (Text × TableEntry)) :=
  handledEntries image fuel (entryCount image - 1) sectorSize (entryCount image) outdir

/-- Everything made so far lies in the output directory. -/
def AllInside (cwd : List Text) (outdir : Text) (extraction : Extraction) : Prop :=
  ∀ target ∈ extraction.made, resolve cwd outdir <+: target

theorem main_extraction {fuel : Nat} {cwd : List Text} {outdir : Text} {image : List Byte}
    {fs final : FileSystem} {lines : List Text}
    (accepted : image.take 4 = [0x4C, 0x75, 0x46, 0x53]) (nonempty : entryCount image ≠ 0)
    (ran : main fuel cwd outdir image fs = some (lines, final)) :
    ∃ ready entries, FileTree.makedirs fs cwd outdir = some ready ∧
      mainEntries image fuel outdir = some entries ∧
      (extraction image cwd ready entries).result = some final := by
  unfold main at ran
  rw [if_neg (fun different => different accepted)] at ran
  split at ran
  · cases ran
  · dsimp only at ran
    change (if entryCount image = 0 then _ else _) = _ at ran
    rw [if_neg nonempty] at ran
    obtain ⟨printed, _, ran⟩ := Option.bind_eq_some_iff.mp ran
    obtain ⟨ready, made, ran⟩ := Option.bind_eq_some_iff.mp ran
    obtain ⟨walk, extracted, ran⟩ := Option.bind_eq_some_iff.mp ran
    have same := extract_all_run image cwd fuel (entryCount image - 1) sectorSize
      (entryCount image) outdir ready
    change extractAll image cwd fuel (entryCount image - 1) sectorSize (entryCount image) outdir
      ready = some walk at extracted
    rw [extracted, Option.map_some] at same
    obtain ⟨entries, listed, left⟩ := Option.bind_eq_some_iff.mp same.symm
    refine ⟨ready, entries, made, listed, ?_⟩
    rw [left]
    exact congrArg some (Prod.mk.inj (Option.some.inj ran)).2

/-- Extraction never leaves the output directory when every entry stays inside.
Where nothing but the way to it was there and no exception cuts the run short,
it keeps inside only then. -/
theorem extraction_inside_iff {image : List Byte} {cwd : List Text} {outdir : Text}
    {fs ready : FileSystem} {fuel : Nat} (nonempty : entryCount image ≠ 0)
    (made : FileTree.makedirs fs cwd outdir = some ready) (enough : entryCount image ≤ fuel) :
    ∃ entries, mainEntries image fuel outdir = some entries ∧
      ((∀ handled ∈ entries, StaysInside cwd outdir handled) →
        ∀ before, before <+: entries → AllInside cwd outdir (extraction image cwd ready before)) ∧
      ((∀ target, ready target ≠ none → target ∈ madePlaces cwd outdir) →
        (extraction image cwd ready entries).raised = false →
        AllInside cwd outdir (extraction image cwd ready entries) →
        ∀ handled ∈ entries, StaysInside cwd outdir handled) := by
  obtain ⟨entries, listed⟩ := handled_entries_exist image sectorSize (entryCount image) outdir
    (show entryCount image - 1 < fuel by omega)
  have way := (makedirs_made made).2
  refine ⟨entries, listed, ?_, ?_⟩
  · intro stays before leading
    have start : Confined cwd outdir (begun ready) :=
      ⟨way, fun _ member => absurd member List.not_mem_nil⟩
    have confined := reached_invariant (handle_confined image) (begun ready) start entries
      (each_step_of_all (handle image cwd) (begun ready) stays) before leading
    exact confined.inside
  · intro fresh running inside handled member target on_path
    have there := run_covers (handle_covers image cwd) (begun ready) entries running handled member
      target on_path
    have grows := grows_run
      (fun extraction handled => (handle_covers image cwd extraction handled).1) (begun ready)
      entries
    by_cases before : ready target = none
    · apply Or.inl
      apply inside
      apply grows.recorded
      change (extraction image cwd ready entries).fs target ≠ ready target
      rw [before]
      exact there
    · exact Or.inr (fresh target before)

def oneEntry (name : List Byte) : List Byte :=
  [0x4C, 0x75, 0x46, 0x53, 2, 0, 0, 0] ++ List.replicate 504 0 ++ List.replicate entrySize 0 ++
    ljust entrySize name

def nestedImage : List Byte :=
  [0x4C, 0x75, 0x46, 0x53, 4, 0, 0, 0] ++ List.replicate 504 0 ++ List.replicate entrySize 0 ++
    LufsLayout.encodeRows [⟨['a'], 2, true, ⟨2, 2, 0, 1⟩⟩, ⟨['d'], 0, false, ⟨1, 1, 147, 195⟩⟩,
      ⟨['x'], 1, true, ⟨2, 2, 2, 2⟩⟩] ++ List.replicate 316 0 ++ [1, 2, 3]

def workFiles : FileSystem := fun other => if other <+: [['w']] then some .dir else none

theorem work_ready : FileTree.makedirs workFiles [['w']] ['o'] =
    some (withDirs workFiles [['w'], ['o']]) := by
  apply makedirs_place (by decide)
  · unfold Plain
    decide
  · intro other _ content
    unfold workFiles
    split <;> simp

theorem extraction_inside_sample :
    ∃ entries, mainEntries nestedImage 4 ['o'] = some entries ∧
      ((∀ handled ∈ entries, StaysInside [['w']] ['o'] handled) →
        ∀ before, before <+: entries → AllInside [['w']] ['o']
          (extraction nestedImage [['w']] (withDirs workFiles [['w'], ['o']]) before)) ∧
      ((∀ target, withDirs workFiles [['w'], ['o']] target ≠ none →
          target ∈ madePlaces [['w']] ['o']) →
        (extraction nestedImage [['w']] (withDirs workFiles [['w'], ['o']]) entries).raised =
          false →
        AllInside [['w']] ['o']
          (extraction nestedImage [['w']] (withDirs workFiles [['w'], ['o']]) entries) →
        ∀ handled ∈ entries, StaysInside [['w']] ['o'] handled) :=
  extraction_inside_iff (by decide +kernel) work_ready (by decide +kernel)

/-- A directory named `../x` is made beside the output directory. -/
theorem entry_leaves_outdir :
    (main 2 [['w']] ['o'] (oneEntry [0x2E, 0x2E, 0x2F, 0x78]) workFiles).map
        (fun left => left.2 [['w'], ['x']]) = some (some .dir) ∧
      ∃ ready entries, FileTree.makedirs workFiles [['w']] ['o'] = some ready ∧
        mainEntries (oneEntry [0x2E, 0x2E, 0x2F, 0x78]) 2 ['o'] = some entries ∧
        (extraction (oneEntry [0x2E, 0x2E, 0x2F, 0x78]) [['w']] ready entries).made =
          [[['w'], ['x']]] ∧
        ¬ AllInside [['w']] ['o']
          (extraction (oneEntry [0x2E, 0x2E, 0x2F, 0x78]) [['w']] ready entries) := by
  have listed : mainEntries (oneEntry [0x2E, 0x2E, 0x2F, 0x78]) 2 ['o'] =
      some [(['o'], ⟨['.', '.', '/', 'x'], 0, false, ⟨0, 0, 0, 0⟩⟩)] := by decide +kernel
  have outside : (extraction (oneEntry [0x2E, 0x2E, 0x2F, 0x78]) [['w']]
      (withDirs workFiles [['w'], ['o']])
      [(['o'], ⟨['.', '.', '/', 'x'], 0, false, ⟨0, 0, 0, 0⟩⟩)]).made = [[['w'], ['x']]] := by
    decide +kernel
  refine ⟨by decide +kernel, _, _, work_ready, listed, outside, ?_⟩
  intro inside
  have within := inside [['w'], ['x']] (by rw [outside]; exact List.mem_cons_self)
  exact absurd within (by decide)

end Main

end LumenOS.LufsConfinement
