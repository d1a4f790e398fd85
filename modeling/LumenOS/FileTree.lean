import LumenOS.Utf8
import Mathlib.Data.List.Induction
import Mathlib.Data.List.Infix
import Mathlib.Data.List.TakeWhile

/-!
# Path texts, directory listings and a file system

Paths are texts with slashes, read as `posixpath` reads them and normalised
lexically. A file system maps normalised paths to what is there; there are no
links. A listing is a directory as `sorted(os.listdir(...))` presents it, with
the contents of what it names.
-/

namespace LumenOS.FileTree

open LumenOS.ByteMemory

set_option autoImplicit false

abbrev Text := List Char

/-- `os.path.join` of two paths. -/
def osJoin (path name : Text) : Text :=
  if name.head? = some '/' then name
  else if path = [] ∨ path.getLast? = some '/' then path ++ name
  else path ++ '/' :: name

/-- `os.path.dirname`: up to the last slash, without trailing slashes unless
there is nothing else. -/
def dirname (path : Text) : Text :=
  let head := (path.reverse.dropWhile (· ≠ '/')).reverse
  if head.all (· = '/') then head else (head.reverse.dropWhile (· = '/')).reverse

/-- One component of a path, taken from the directory `place`. -/
def enter (place : List Text) (component : Text) : List Text :=
  if component = [] ∨ component = ['.'] then place
  else if component = ['.', '.'] then place.dropLast
  else place ++ [component]

def scanPath (state : List Text × Text) (c : Char) : List Text × Text :=
  if c = '/' then (enter state.1 state.2, []) else (state.1, state.2 ++ [c])

def resolve (cwd : List Text) (path : Text) : List Text :=
  let start := if path.head? = some '/' then [] else cwd
  let state := path.foldl scanPath (start, [])
  enter state.1 state.2

inductive Node where
  | dir
  | file (content : List Byte)
  deriving DecidableEq

abbrev FileSystem := List Text → Option Node

def place (fs : FileSystem) (at_path : List Text) (node : Node) : FileSystem :=
  fun other => if other = at_path then some node else fs other

def ensureDir (fs : FileSystem) (at_path : List Text) : Option FileSystem :=
  match fs at_path with
  | none => some (place fs at_path .dir)
  | some .dir => some fs
  | some (.file _) => none

def start (cwd : List Text) (path : Text) : List Text :=
  if path.head? = some '/' then [] else cwd

/-- The places a path goes through, one for each component. -/
def stops (here : List Text) : List Text → List (List Text)
  | [] => []
  | component :: more => enter here component :: stops (enter here component) more

/-- What is made where it is missing, in this order: the directories above the
start and the start, which are there in a running system, and every place the
path goes through, also those a step back leaves again. -/
def madePlaces (cwd : List Text) (path : Text) : List (List Text) :=
  (start cwd path).inits ++ stops (start cwd path) (path.splitOn '/')

/-- `os.makedirs(..., exist_ok=True)`; no result where Python raises. -/
def makedirs (fs : FileSystem) (cwd : List Text) (path : Text) : Option FileSystem :=
  if path = [] then none else (madePlaces cwd path).foldlM ensureDir fs

/-- `open(..., "wb")` and one `write`. -/
def writeFile (fs : FileSystem) (at_path : List Text) (data : List Byte) : Option FileSystem :=
  if at_path ≠ [] ∧ fs at_path.dropLast = some .dir ∧ fs at_path ≠ some .dir then
    some (place fs at_path (.file data))
  else none

inductive Listing where
  | nil
  | file (name : Text) (content : List Byte) (rest : Listing)
  | dir (name : Text) (children rest : Listing)
  deriving DecidableEq

namespace Listing

def names : Listing → List Text
  | nil => []
  | file name _ rest => name :: names rest
  | dir name _ rest => name :: names rest

def lookup : Listing → List Text → Option Node
  | _, [] => some .dir
  | nil, _ :: _ => none
  | file name content rest, first :: more =>
      if first = name then (if more = [] then some (.file content) else none)
      else lookup rest (first :: more)
  | dir name children rest, first :: more =>
      if first = name then lookup children more else lookup rest (first :: more)

def depth : Listing → Nat
  | nil => 0
  | file _ _ rest => depth rest
  | dir _ children rest => max (depth children + 1) (depth rest)

end Listing

structure GoodName (name : Text) : Prop where
  nonempty : name ≠ []
  noSlash : '/' ∉ name
  noNul : Char.ofNat 0 ∉ name
  short : (Utf8.encode name).length ≤ 32
  notDot : name ≠ ['.']
  notDotDot : name ≠ ['.', '.']

/-- Good names everywhere, and the names of each directory in strictly
ascending order of code points, so that siblings differ. -/
def GoodTree : Listing → Prop
  | .nil => True
  | .file name _ rest => GoodName name ∧ (∀ other ∈ rest.names, name < other) ∧ GoodTree rest
  | .dir name children rest => GoodName name ∧ (∀ other ∈ rest.names, name < other) ∧
      GoodTree children ∧ GoodTree rest

structure OsName (name : Text) : Prop where
  nonempty : name ≠ []
  noSlash : '/' ∉ name
  noNul : Char.ofNat 0 ∉ name
  notDot : name ≠ ['.']
  notDotDot : name ≠ ['.', '.']

/-- A directory as the system lists it: distinct names in ascending order. -/
def OsTree : Listing → Prop
  | .nil => True
  | .file name _ rest => OsName name ∧ (∀ other ∈ rest.names, name < other) ∧ OsTree rest
  | .dir name children rest => OsName name ∧ (∀ other ∈ rest.names, name < other) ∧
      OsTree children ∧ OsTree rest

theorem GoodName.os {name : Text} (good : GoodName name) : OsName name :=
  ⟨good.nonempty, good.noSlash, good.noNul, good.notDot, good.notDotDot⟩

theorem GoodTree.os {listing : Listing} (good : GoodTree listing) : OsTree listing := by
  induction listing with
  | nil => trivial
  | file name content rest ih => exact ⟨good.1.os, good.2.1, ih good.2.2⟩
  | dir name children rest ihChildren ih =>
      exact ⟨good.1.os, good.2.1, ihChildren good.2.2.1, ih good.2.2.2⟩

theorem OsName.head {name : Text} (good : OsName name) : name.head? ≠ some '/' := by
  intro slash
  exact good.noSlash (List.mem_of_mem_head? slash)

theorem enter_good {name : Text} (good : OsName name) (here : List Text) :
    enter here name = here ++ [name] := by
  unfold enter
  rw [if_neg, if_neg good.notDotDot]
  intro special
  rcases special with empty | dot
  · exact good.nonempty empty
  · exact good.notDot dot

theorem scan_clean (name : Text) (clean : '/' ∉ name) (here : List Text) (current : Text) :
    name.foldl scanPath (here, current) = (here, current ++ name) := by
  induction name generalizing current with
  | nil => rw [List.append_nil]; rfl
  | cons c name ih =>
      have notSlash : c ≠ '/' := fun same => clean (by rw [same]; exact List.mem_cons_self)
      have rest := ih (fun member => clean (List.mem_cons_of_mem c member)) (current ++ [c])
      rw [List.foldl_cons]
      unfold scanPath
      rw [if_neg notSlash]
      change name.foldl scanPath (here, current ++ [c]) = _
      rw [rest, List.append_assoc]
      rfl

theorem start_append (cwd : List Text) {path : Text} (more : Text) (nonempty : path ≠ []) :
    start cwd (path ++ more) = start cwd path := by
  unfold start
  rw [List.head?_append_of_ne_nil path nonempty]

theorem scan_slash (cwd : List Text) (path : Text) :
    (path ++ ['/']).foldl scanPath (start cwd path, []) = (resolve cwd path, []) := by
  rw [List.foldl_append]
  rfl

theorem resolve_slash (cwd : List Text) (path : Text) (nonempty : path ≠ []) :
    resolve cwd (path ++ ['/']) = resolve cwd path := by
  have scanned := scan_slash cwd path
  rw [← start_append cwd ['/'] nonempty] at scanned
  change enter ((path ++ ['/']).foldl scanPath (start cwd (path ++ ['/']), [])).1
    ((path ++ ['/']).foldl scanPath (start cwd (path ++ ['/']), [])).2 = _
  rw [scanned]
  rfl

theorem resolve_slashes (cwd : List Text) (path slashes : Text) (nonempty : path ≠ [])
    (only : ∀ c ∈ slashes, c = '/') : resolve cwd (path ++ slashes) = resolve cwd path := by
  induction slashes generalizing path with
  | nil => rw [List.append_nil]
  | cons c slashes ih =>
      have slash : c = '/' := only c List.mem_cons_self
      have more : path ++ c :: slashes = (path ++ ['/']) ++ slashes := by
        rw [slash, List.append_assoc]
        rfl
      rw [more, ih _ (by simp) (fun other member => only other (List.mem_cons_of_mem c member)),
        resolve_slash cwd path nonempty]

theorem resolve_name (cwd : List Text) (path name : Text) (good : OsName name)
    (open_end : path = [] ∨ path.getLast? = some '/') :
    resolve cwd (path ++ name) = resolve cwd path ++ [name] := by
  rcases open_end with empty | slash
  · have relative : start cwd name = cwd := if_neg good.head
    have scanned := scan_clean name good.noSlash cwd []
    subst empty
    change enter (name.foldl scanPath (start cwd name, [])).1
      (name.foldl scanPath (start cwd name, [])).2 = cwd ++ [name]
    rw [relative, scanned]
    exact enter_good good cwd
  · obtain ⟨before, rfl⟩ := List.getLast?_eq_some_iff.mp slash
    have nonempty : before ++ ['/'] ≠ [] := by simp
    have state : ((before ++ ['/']).foldl scanPath (start cwd (before ++ ['/']), [])).2 = [] := by
      rw [List.foldl_append]
      rfl
    have home : resolve cwd (before ++ ['/']) =
        ((before ++ ['/']).foldl scanPath (start cwd (before ++ ['/']), [])).1 := by
      change enter _ ((before ++ ['/']).foldl scanPath (start cwd (before ++ ['/']), [])).2 = _
      rw [state]
      rfl
    have scanned := scan_clean name good.noSlash
      ((before ++ ['/']).foldl scanPath (start cwd (before ++ ['/']), [])).1 []
    change enter ((before ++ ['/'] ++ name).foldl scanPath
      (start cwd (before ++ ['/'] ++ name), [])).1 ((before ++ ['/'] ++ name).foldl scanPath
      (start cwd (before ++ ['/'] ++ name), [])).2 = _
    rw [start_append cwd name nonempty, List.foldl_append]
    have split : (before ++ ['/']).foldl scanPath (start cwd (before ++ ['/']), []) =
        (((before ++ ['/']).foldl scanPath (start cwd (before ++ ['/']), [])).1, []) :=
      Prod.ext rfl state
    rw [split, scanned, home]
    exact enter_good good _

theorem join_split (path name : Text) (good : OsName name) :
    ∃ head, osJoin path name = head ++ name ∧ (head = [] ∨ head.getLast? = some '/') ∧
      ∀ cwd, resolve cwd head = resolve cwd path := by
  unfold osJoin
  rw [if_neg good.head]
  by_cases ends : path = [] ∨ path.getLast? = some '/'
  · rw [if_pos ends]
    exact ⟨path, rfl, ends, fun _ => rfl⟩
  · rw [if_neg ends]
    refine ⟨path ++ ['/'], ?_, Or.inr (by simp), ?_⟩
    · rw [List.append_assoc]
      rfl
    · intro cwd
      exact resolve_slash cwd path (fun empty => ends (Or.inl empty))

theorem resolve_join (cwd : List Text) (path name : Text) (good : OsName name) :
    resolve cwd (osJoin path name) = resolve cwd path ++ [name] := by
  obtain ⟨head, joined, ends, same⟩ := join_split path name good
  rw [joined, resolve_name cwd head name good ends, same]

theorem drop_name (head name : Text) (clean : '/' ∉ name)
    (ends : head = [] ∨ head.getLast? = some '/') :
    ((head ++ name).reverse.dropWhile (· ≠ '/')).reverse = head := by
  have skipped : (name.reverse ++ head.reverse).dropWhile (· ≠ '/') =
      head.reverse.dropWhile (· ≠ '/') := by
    apply List.dropWhile_append_of_pos
    intro c member
    have different : c ≠ '/' := by
      intro same
      rw [same] at member
      exact clean (List.mem_reverse.mp member)
    exact decide_eq_true different
  rw [List.reverse_append, skipped]
  rcases ends with empty | slash
  · rw [empty]
    rfl
  · obtain ⟨before, rfl⟩ := List.getLast?_eq_some_iff.mp slash
    rw [List.reverse_append]
    simp

theorem resolve_dirname (cwd : List Text) (path name : Text) (good : OsName name) :
    resolve cwd (dirname (osJoin path name)) = resolve cwd path := by
  obtain ⟨head, joined, ends, same⟩ := join_split path name good
  have dropped := drop_name head name good.noSlash ends
  rw [joined]
  unfold dirname
  dsimp only
  rw [dropped, ← same cwd]
  by_cases only : head.all (· = '/') = true
  · rw [if_pos only]
  · rw [if_neg only]
    have split : head = (head.reverse.dropWhile (· = '/')).reverse ++
        (head.reverse.takeWhile (· = '/')).reverse := by
      rw [← List.reverse_append, List.takeWhile_append_dropWhile, List.reverse_reverse]
    have slashes : ∀ c ∈ (head.reverse.takeWhile (· = '/')).reverse, c = '/' := by
      intro c member
      exact of_decide_eq_true
        (List.all_eq_true.mp List.all_takeWhile c (List.mem_reverse.mp member))
    have nonempty : (head.reverse.dropWhile (· = '/')).reverse ≠ [] := by
      intro empty
      apply only
      rw [split, empty, List.nil_append, List.all_eq_true]
      intro c member
      exact decide_eq_true (slashes c member)
    have whole := resolve_slashes cwd _ _ nonempty slashes
    rw [← split] at whole
    exact whole.symm

theorem join_nonempty (path name : Text) (good : OsName name) : osJoin path name ≠ [] := by
  obtain ⟨head, joined, _⟩ := join_split path name good
  rw [joined]
  exact List.append_ne_nil_of_right_ne_nil head good.nonempty

theorem dirname_nonempty (path name : Text) (good : OsName name) (nonempty : path ≠ []) :
    dirname (osJoin path name) ≠ [] := by
  have headed : ∃ head, head ≠ [] ∧ osJoin path name = head ++ name ∧
      (head = [] ∨ head.getLast? = some '/') := by
    unfold osJoin
    rw [if_neg good.head]
    by_cases ends : path = [] ∨ path.getLast? = some '/'
    · rw [if_pos ends]
      exact ⟨path, nonempty, rfl, ends⟩
    · rw [if_neg ends]
      exact ⟨path ++ ['/'], by simp, by simp, Or.inr (by simp)⟩
  obtain ⟨head, headNonempty, joined, ends⟩ := headed
  rw [joined]
  unfold dirname
  dsimp only
  rw [drop_name head name good.noSlash ends]
  by_cases only : head.all (· = '/') = true
  · rw [if_pos only]
    exact headNonempty
  · rw [if_neg only]
    intro stripped
    apply only
    rw [List.reverse_eq_nil_iff, List.dropWhile_eq_nil_iff] at stripped
    rw [List.all_eq_true]
    exact fun c member => stripped c (List.mem_reverse.mpr member)

section Directories

/-- The file system when `target` and everything on the way to it are directories. -/
def withDirs (fs : FileSystem) (target : List Text) : FileSystem :=
  fun other => if other <+: target then some .dir else fs other

theorem ensure_dir_place {fs : FileSystem} {target : List Text}
    (noFile : ∀ content, fs target ≠ some (.file content)) :
    ensureDir fs target = some (place fs target .dir) := by
  unfold ensureDir
  cases found : fs target with
  | none => rfl
  | some node =>
      cases node with
      | file content => exact absurd found (noFile content)
      | dir =>
          apply congrArg some
          funext other
          unfold place
          by_cases same : other = target
          · rw [if_pos same, same, found]
          · rw [if_neg same]

theorem place_with_dirs (fs : FileSystem) (target : List Text) (last : Text) :
    place (withDirs fs target) (target ++ [last]) .dir = withDirs fs (target ++ [last]) := by
  funext other
  unfold place withDirs
  simp only [List.prefix_concat_iff]
  by_cases same : other = target ++ [last]
  · rw [if_pos same, if_pos (Or.inl same)]
  · rw [if_neg same]
    simp only [same, false_or]

theorem ensure_inits {fs : FileSystem} {target : List Text}
    (noFile : ∀ other, other <+: target → ∀ content, fs other ≠ some (.file content)) :
    target.inits.foldlM ensureDir fs = some (withDirs fs target) := by
  induction target using List.reverseRecOn with
  | nil =>
      have made := ensure_dir_place (noFile [] List.prefix_rfl)
      rw [List.inits, List.foldlM_cons, made]
      apply congrArg some
      funext other
      unfold place withDirs
      simp only [List.prefix_nil]
  | append_singleton target last ih =>
      have before := ih fun other within => noFile other (within.trans (List.prefix_append _ _))
      have longer : ¬ target ++ [last] <+: target := by
        intro within
        have lengths := within.length_le
        rw [List.length_append, List.length_singleton] at lengths
        omega
      have new : ∀ content, withDirs fs target (target ++ [last]) ≠ some (.file content) := by
        intro content
        unfold withDirs
        rw [if_neg longer]
        exact noFile _ List.prefix_rfl content
      have split : (target ++ [last]).inits = target.inits ++ [target ++ [last]] := by
        rw [List.inits_append]
        rfl
      rw [split, List.foldlM_append, before]
      change [target ++ [last]].foldlM ensureDir (withDirs fs target) = _
      rw [List.foldlM_cons, ensure_dir_place new, place_with_dirs]
      rfl

theorem ensure_dir_keeps {fs final : FileSystem} {target : List Text}
    (made : ensureDir fs target = some final) :
    final target = some .dir ∧ ∀ other, fs other = some .dir → final other = some .dir := by
  unfold ensureDir at made
  split at made
  · rw [← Option.some.inj made]
    unfold place
    refine ⟨if_pos rfl, fun other directory => ?_⟩
    by_cases same : other = target
    · exact if_pos same
    · rw [if_neg same]
      exact directory
  · rename_i there
    rw [← Option.some.inj made]
    exact ⟨there, fun _ directory => directory⟩
  · cases made

theorem ensure_all_made {places : List (List Text)} {fs final : FileSystem}
    (made : places.foldlM ensureDir fs = some final) :
    (∀ target ∈ places, final target = some .dir) ∧
      ∀ other, fs other = some .dir → final other = some .dir := by
  induction places generalizing fs with
  | nil =>
      rw [← Option.some.inj made]
      exact ⟨fun _ member => absurd member List.not_mem_nil, fun _ directory => directory⟩
  | cons target places ih =>
      rw [List.foldlM_cons] at made
      obtain ⟨middle, ensured, onward⟩ := Option.bind_eq_some_iff.mp made
      obtain ⟨there, kept⟩ := ensure_dir_keeps ensured
      obtain ⟨all, still⟩ := ih onward
      exact ⟨List.forall_mem_cons.mpr ⟨still target there, all⟩,
        fun other directory => still other (kept other directory)⟩

theorem makedirs_made {fs final : FileSystem} {cwd : List Text} {path : Text}
    (made : makedirs fs cwd path = some final) :
    path ≠ [] ∧ ∀ target ∈ madePlaces cwd path, final target = some .dir := by
  unfold makedirs at made
  split at made
  · cases made
  · rename_i nonempty
    exact ⟨nonempty, (ensure_all_made made).1⟩

def Reached (fs : FileSystem) (target : List Text) : Prop :=
  ∀ other, other <+: target → fs other = some .dir

theorem Reached.no_file {fs : FileSystem} {target : List Text} (reached : Reached fs target)
    (other : List Text) (within : other <+: target) (content : List Byte) :
    fs other ≠ some (.file content) := by
  rw [reached other within]
  exact fun same => Node.noConfusion (Option.some.inj same)

theorem with_dirs_reached {fs : FileSystem} {target : List Text} (reached : Reached fs target) :
    withDirs fs target = fs := by
  funext other
  unfold withDirs
  by_cases within : other <+: target
  · rw [if_pos within, reached other within]
  · rw [if_neg within]

theorem with_dirs_snoc {fs : FileSystem} {target : List Text} (reached : Reached fs target)
    (name : Text) : withDirs fs (target ++ [name]) = place fs (target ++ [name]) .dir := by
  rw [← place_with_dirs, with_dirs_reached reached]

theorem with_dirs_made (fs : FileSystem) (target : List Text) :
    Reached (withDirs fs target) target :=
  fun _ within => if_pos within

theorem with_dirs_longer (fs : FileSystem) {first second : List Text} (within : first <+: second) :
    withDirs (withDirs fs first) second = withDirs fs second := by
  funext other
  unfold withDirs
  by_cases inside : other <+: second
  · rw [if_pos inside, if_pos inside]
  · rw [if_neg inside, if_neg inside, if_neg fun before => inside (before.trans within)]

theorem enter_deeper (here : List Text) {component : Text} (plain : component ≠ ['.', '.']) :
    enter here component = here ∨ enter here component = here ++ [component] := by
  unfold enter
  rw [if_neg plain]
  by_cases same : component = [] ∨ component = ['.']
  · exact Or.inl (if_pos same)
  · exact Or.inr (if_neg same)

theorem enter_all_deeper (here : List Text) {components : List Text}
    (plain : ['.', '.'] ∉ components) : here <+: components.foldl enter here := by
  induction components generalizing here with
  | nil => exact List.prefix_rfl
  | cons component components ih =>
      obtain ⟨first, later⟩ := List.ne_and_not_mem_of_not_mem_cons plain
      have onward := ih (enter here component) later
      rw [List.foldl_cons]
      rcases enter_deeper here first.symm with same | deeper
      · rw [same] at onward ⊢
        exact onward
      · rw [deeper] at onward ⊢
        exact (List.prefix_append _ _).trans onward

theorem ensure_stops {fs : FileSystem} {here : List Text} {components : List Text}
    (reached : Reached fs here) (plain : ['.', '.'] ∉ components)
    (noFile : ∀ other, other <+: components.foldl enter here →
      ∀ content, fs other ≠ some (.file content)) :
    (stops here components).foldlM ensureDir fs =
      some (withDirs fs (components.foldl enter here)) := by
  induction components generalizing fs here with
  | nil => exact congrArg some (with_dirs_reached reached).symm
  | cons component components ih =>
      obtain ⟨first, later⟩ := List.ne_and_not_mem_of_not_mem_cons plain
      have within := enter_all_deeper (enter here component) later
      have made : ensureDir fs (enter here component) =
          some (withDirs fs (enter here component)) := by
        rw [ensure_dir_place (noFile _ within)]
        apply congrArg some
        rcases enter_deeper here first.symm with same | deeper
        · rw [same, with_dirs_reached reached]
          funext other
          unfold place
          by_cases equal : other = here
          · rw [if_pos equal, equal, reached here List.prefix_rfl]
          · rw [if_neg equal]
        · rw [deeper, with_dirs_snoc reached]
      rw [stops, List.foldlM_cons, made]
      change (stops (enter here component) components).foldlM ensureDir _ = _
      rw [ih (with_dirs_made fs _) later, List.foldl_cons, with_dirs_longer fs within]
      intro other inside content
      unfold withDirs
      split
      · exact fun same => Node.noConfusion (Option.some.inj same)
      · exact noFile other inside content

theorem modify_head_nothing (components : List Text) :
    components.modifyHead ([] ++ ·) = components := by
  cases components <;> rfl

theorem scan_components (path : Text) (here : List Text) (current : Text) :
    enter (path.foldl scanPath (here, current)).1 (path.foldl scanPath (here, current)).2 =
      ((path.splitOn '/').modifyHead (current ++ ·)).foldl enter here := by
  induction path generalizing here current with
  | nil => rw [List.splitOn_nil, List.modifyHead_cons, List.append_nil]; rfl
  | cons c path ih =>
      rw [List.foldl_cons, List.splitOn_cons_eq_if_modifyHead]
      by_cases slash : c = '/'
      · have step : scanPath (here, current) c = (enter here current, []) := if_pos slash
        rw [step, ih, if_pos (beq_iff_eq.mpr slash), modify_head_nothing, List.modifyHead_cons,
          List.append_nil, List.foldl_cons]
      · have step : scanPath (here, current) c = (here, current ++ [c]) := if_neg slash
        rw [step, ih, if_neg (by simpa using slash), List.modifyHead_modifyHead]
        simp only [List.append_assoc, Function.comp_def, List.singleton_append]

theorem resolve_components (cwd : List Text) (path : Text) :
    resolve cwd path = (path.splitOn '/').foldl enter (start cwd path) := by
  have scanned := scan_components path (start cwd path) []
  rw [modify_head_nothing] at scanned
  exact scanned

def Plain (path : Text) : Prop := ['.', '.'] ∉ path.splitOn '/'

theorem split_slash (front behind : Text) :
    (front ++ '/' :: behind).splitOn '/' = front.splitOn '/' ++ behind.splitOn '/' :=
  List.splitOn_append_cons_self front behind

theorem plain_slash (front behind : Text) :
    Plain (front ++ '/' :: behind) ↔ Plain front ∧ Plain behind := by
  unfold Plain
  rw [split_slash, List.mem_append, not_or]

theorem plain_name {name : Text} (good : OsName name) : Plain name := by
  unfold Plain
  rw [List.splitOn_eq_singleton good.noSlash, List.mem_singleton]
  exact good.notDotDot.symm

theorem plain_join {path name : Text} (good : OsName name) (plain : Plain path) :
    Plain (osJoin path name) := by
  unfold osJoin
  rw [if_neg good.head]
  by_cases ends : path = [] ∨ path.getLast? = some '/'
  · rw [if_pos ends]
    rcases ends with empty | slash
    · rw [empty]
      exact plain_name good
    · obtain ⟨before, rfl⟩ := List.getLast?_eq_some_iff.mp slash
      rw [List.append_assoc]
      exact (plain_slash before name).mpr ⟨((plain_slash before []).mp plain).1, plain_name good⟩
  · rw [if_neg ends]
    exact (plain_slash path name).mpr ⟨plain, plain_name good⟩

theorem split_slashes {slashes : Text} (only : ∀ c ∈ slashes, c = '/') :
    ∀ component ∈ slashes.splitOn '/', component = [] := by
  induction slashes with
  | nil =>
      rw [List.splitOn_nil]
      exact fun component member => List.mem_singleton.mp member
  | cons c slashes ih =>
      obtain ⟨first, later⟩ := List.forall_mem_cons.mp only
      rw [List.splitOn_cons_eq_if_modifyHead, if_pos (beq_iff_eq.mpr first)]
      exact List.forall_mem_cons.mpr ⟨rfl, ih later⟩

/-- A path with a directory has a last slash; the directory is what is before
it, without the slashes that come last in turn. -/
theorem last_slash {path : Text} (nonempty : dirname path ≠ []) :
    ∃ before last, path = before ++ '/' :: last ∧ last.splitOn '/' = [last] ∧
      (dirname path = before ++ ['/'] ∨
        ∃ slashes, (∀ c ∈ slashes, c = '/') ∧ before = dirname path ++ slashes) := by
  have whole : path = (path.reverse.dropWhile (· ≠ '/')).reverse ++
      (path.reverse.takeWhile (· ≠ '/')).reverse := by
    rw [← List.reverse_append, List.takeWhile_append_dropWhile, List.reverse_reverse]
  have single : (path.reverse.takeWhile (· ≠ '/')).reverse.splitOn '/' =
      [(path.reverse.takeWhile (· ≠ '/')).reverse] := by
    apply List.splitOn_eq_singleton
    intro member
    have passed := List.all_eq_true.mp List.all_takeWhile '/' (List.mem_reverse.mp member)
    exact absurd rfl (of_decide_eq_true passed)
  have first := List.head?_dropWhile_not (· ≠ '/') path.reverse
  cases dropped : path.reverse.dropWhile (· ≠ '/') with
  | nil =>
      unfold dirname at nonempty
      dsimp only at nonempty
      rw [dropped] at nonempty
      exact absurd rfl nonempty
  | cons c before =>
      rw [dropped] at first whole
      have slash : c = '/' := by simpa using first
      rw [slash, List.reverse_cons, List.append_assoc] at whole
      refine ⟨before.reverse, _, whole, single, ?_⟩
      unfold dirname
      dsimp only
      rw [dropped, slash, List.reverse_cons]
      by_cases only : (before.reverse ++ ['/']).all (· = '/') = true
      · rw [if_pos only]
        exact .inl rfl
      · right
        rw [if_neg only, List.reverse_append, List.reverse_reverse]
        refine ⟨(before.takeWhile (· = '/')).reverse, ?_, ?_⟩
        · intro c member
          exact of_decide_eq_true
            (List.all_eq_true.mp List.all_takeWhile c (List.mem_reverse.mp member))
        · change _ = (('/' :: before).dropWhile (· = '/')).reverse ++ _
          rw [List.dropWhile_cons_of_pos (by decide), ← List.reverse_append,
            List.takeWhile_append_dropWhile]

/-- The components of a path's directory come first among the path's own, but
for an empty one that a last slash leaves; behind them come empty components
and the last one. -/
theorem dirname_components (path : Text) (nonempty : dirname path ≠ []) :
    ∃ front empties last, front ≠ [] ∧ (∀ component ∈ empties, component = []) ∧
      path.splitOn '/' = front ++ (empties ++ [last]) ∧
      ((dirname path).splitOn '/' = front ∨ (dirname path).splitOn '/' = front ++ [[]]) := by
  obtain ⟨before, last, whole, single, directory⟩ := last_slash nonempty
  have split : path.splitOn '/' = before.splitOn '/' ++ [last] := by
    rw [whole, split_slash, single]
  have nothing : ∀ component ∈ ([] : List Text), component = [] :=
    fun _ member => absurd member List.not_mem_nil
  rcases directory with rooted | ⟨slashes, only, stripped⟩
  · rw [rooted]
    exact ⟨_, [], _, List.splitOn_ne_nil _ _, nothing, split, Or.inr (split_slash _ [])⟩
  · cases slashes with
    | nil =>
        rw [List.append_nil] at stripped
        rw [stripped] at split
        exact ⟨_, [], _, List.splitOn_ne_nil _ _, nothing, split, Or.inl rfl⟩
    | cons c more =>
        obtain ⟨first, later⟩ := List.forall_mem_cons.mp only
        rw [stripped, first, split_slash, List.append_assoc] at split
        exact ⟨_, _, _, List.splitOn_ne_nil _ _, split_slashes later, split, Or.inl rfl⟩

theorem plain_dirname {path : Text} (plain : Plain path) : Plain (dirname path) := by
  unfold Plain at plain ⊢
  by_cases nonempty : dirname path = []
  · rw [nonempty]
    decide
  · obtain ⟨front, empties, last, _, _, split, own⟩ := dirname_components path nonempty
    rw [split, List.mem_append, not_or] at plain
    rcases own with same | ended
    · rw [same]
      exact plain.1
    · rw [ended, List.mem_append, not_or]
      exact ⟨plain.1, by decide⟩

theorem dirname_leads (path : Text) : dirname path <+: path := by
  have head : (path.reverse.dropWhile (· ≠ '/')).reverse <+: path := by
    have behind := List.reverse_prefix.mpr (List.dropWhile_suffix (l := path.reverse) (· ≠ '/'))
    rw [List.reverse_reverse] at behind
    exact behind
  unfold dirname
  dsimp only
  split
  · exact head
  · have behind := List.reverse_prefix.mpr
      (List.dropWhile_suffix (l := (path.reverse.dropWhile (· ≠ '/')).reverse.reverse) (· = '/'))
    rw [List.reverse_reverse (path.reverse.dropWhile (· ≠ '/')).reverse] at behind
    exact behind.trans head

theorem stops_append (here : List Text) (first second : List Text) :
    stops here (first ++ second) = stops here first ++ stops (first.foldl enter here) second := by
  induction first generalizing here with
  | nil => rfl
  | cons component first ih => rw [List.cons_append, stops, stops, ih]; rfl

theorem stops_last (here : List Text) {components : List Text} (nonempty : components ≠ []) :
    components.foldl enter here ∈ stops here components := by
  induction components generalizing here with
  | nil => exact absurd rfl nonempty
  | cons component components ih =>
      cases components with
      | nil => exact List.mem_cons_self
      | cons next more => exact List.mem_cons_of_mem _ (ih _ (List.cons_ne_nil _ _))

theorem resolve_made (cwd : List Text) (path : Text) : resolve cwd path ∈ madePlaces cwd path := by
  unfold madePlaces
  rw [resolve_components]
  exact List.mem_append_right _ (stops_last _ (List.splitOn_ne_nil _ _))

theorem stops_empty (here : List Text) {empties : List Text}
    (nothing : ∀ component ∈ empties, component = []) :
    empties.foldl enter here = here ∧ ∀ target ∈ stops here empties, target = here := by
  induction empties with
  | nil => exact ⟨rfl, fun _ member => absurd member List.not_mem_nil⟩
  | cons component empties ih =>
      obtain ⟨first, later⟩ := List.forall_mem_cons.mp nothing
      obtain ⟨final, all⟩ := ih later
      have same : enter here component = here := if_pos (Or.inl first)
      rw [List.foldl_cons, stops, same]
      exact ⟨final, List.forall_mem_cons.mpr ⟨rfl, all⟩⟩

theorem dirname_places {cwd : List Text} {path : Text} (nonempty : dirname path ≠ []) :
    (∀ target ∈ madePlaces cwd (dirname path), target ∈ madePlaces cwd path) ∧
      ∀ target ∈ madePlaces cwd path,
        target ∈ madePlaces cwd (dirname path) ∨ target = resolve cwd path := by
  obtain ⟨rest, whole⟩ := dirname_leads path
  have same : start cwd path = start cwd (dirname path) := by
    conv_lhs => rw [← whole]
    exact start_append cwd rest nonempty
  obtain ⟨front, empties, last, fronted, nothing, split, own⟩ := dirname_components path nonempty
  have lastFront := stops_last (start cwd (dirname path)) fronted
  have ownStops : ∀ target, target ∈ stops (start cwd (dirname path)) ((dirname path).splitOn '/') ↔
      target ∈ stops (start cwd (dirname path)) front := by
    intro target
    rcases own with equal | ended
    · rw [equal]
    · rw [ended, stops_append, List.mem_append]
      constructor
      · rintro (before | here)
        · exact before
        · rw [List.mem_singleton.mp here]
          exact lastFront
      · exact Or.inl
  obtain ⟨stay, allStay⟩ := stops_empty (front.foldl enter (start cwd (dirname path))) nothing
  rw [resolve_components]
  unfold madePlaces
  rw [same, split, stops_append, stops_append, List.foldl_append, List.foldl_append, stay]
  constructor
  · intro target member
    rcases List.mem_append.mp member with above | on_path
    · exact List.mem_append_left _ above
    · exact List.mem_append_right _ (List.mem_append_left _ ((ownStops target).mp on_path))
  · intro target member
    rcases List.mem_append.mp member with above | on_path
    · exact Or.inl (List.mem_append_left _ above)
    · rcases List.mem_append.mp on_path with before | behind
      · exact Or.inl (List.mem_append_right _ ((ownStops target).mpr before))
      · rcases List.mem_append.mp behind with between | here
        · rw [allStay target between]
          exact Or.inl (List.mem_append_right _ ((ownStops _).mpr lastFront))
        · exact Or.inr (List.mem_singleton.mp here)

theorem makedirs_place {fs : FileSystem} {cwd : List Text} {path : Text} (nonempty : path ≠ [])
    (plain : Plain path)
    (noFile : ∀ other, other <+: resolve cwd path → ∀ content, fs other ≠ some (.file content)) :
    makedirs fs cwd path = some (withDirs fs (resolve cwd path)) := by
  have within : start cwd path <+: resolve cwd path := by
    rw [resolve_components]
    exact enter_all_deeper _ plain
  unfold makedirs madePlaces
  rw [if_neg nonempty, List.foldlM_append,
    ensure_inits fun other before => noFile other (before.trans within)]
  change (stops _ _).foldlM ensureDir _ = _
  rw [ensure_stops (with_dirs_made fs _) plain, ← resolve_components, with_dirs_longer fs within]
  rw [← resolve_components]
  intro other inside content
  unfold withDirs
  split
  · exact fun same => Node.noConfusion (Option.some.inj same)
  · exact noFile other inside content

end Directories

theorem lookup_nil (listing : Listing) : listing.lookup [] = some .dir := by
  cases listing <;> rfl

theorem lookup_absent {listing : Listing} {name : Text} (absent : name ∉ listing.names)
    (more : List Text) : listing.lookup (name :: more) = none := by
  induction listing with
  | nil => rfl
  | file other content rest ih =>
      obtain ⟨different, later⟩ := List.ne_and_not_mem_of_not_mem_cons absent
      unfold Listing.lookup
      rw [if_neg different]
      exact ih later
  | dir other children rest _ ih =>
      obtain ⟨different, later⟩ := List.ne_and_not_mem_of_not_mem_cons absent
      unfold Listing.lookup
      rw [if_neg different]
      exact ih later

theorem OsTree.distinct {name : Text} {rest : Listing}
    (ascending : ∀ other ∈ rest.names, name < other) : name ∉ rest.names :=
  fun member => List.lt_irrefl name (ascending name member)

end LumenOS.FileTree
