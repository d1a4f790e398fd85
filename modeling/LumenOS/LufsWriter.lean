import LumenOS.LufsPaths
import Mathlib.Data.List.Nodup

/-!
# The writer produces the layout

Each pass of `makefs` over the directories or the entries is one recursion over
the listing: the order in which directories are collected, the offsets planned
for their tables and for the contents, and the tables packed from the plan.
-/

namespace LumenOS.LufsWriter

open LumenOS.ByteMemory LumenOS.FileTree LumenOS.LufsModel LumenOS.LufsLayout LumenOS.LufsPaths

set_option autoImplicit false

/-- The writer's table of entries lists each directory below `here`. -/
def Listed (entries : List Entry) (here : List Text) (listing : Listing) : Prop :=
  ∀ found ∈ dirs here listing,
    dirTree entries (pathText found.1) = items (pathText found.1) found.2

section Listings

variable {entries : List Entry} {here : List Text} {name : Text} {children rest : Listing}

theorem Listed.own (listed : Listed entries here (.dir name children rest)) :
    dirTree entries (pathText (here ++ [name])) = items (pathText (here ++ [name])) children :=
  listed (here ++ [name], children) List.mem_cons_self

theorem Listed.inner (listed : Listed entries here (.dir name children rest)) :
    Listed entries (here ++ [name]) children := by
  intro found member
  exact listed found (List.mem_append_left _ (List.mem_cons_of_mem _ member))

theorem Listed.later (listed : Listed entries here (.dir name children rest)) :
    Listed entries here rest := by
  intro found member
  exact listed found (List.mem_append_right _ member)

end Listings

section Collection

theorem collect_file (collect : Text → Order → Option Order) (parent : Text) (order : Order)
    (name relPath : Text) (content : List Byte) :
    collectEntry collect parent order ⟨name, true, relPath, content⟩ = some order := rfl

theorem collect_seen (collect : Text → Order → Option Order) (parent : Text) (order : Order)
    (entry : Entry) (seen : childPath parent entry.name ∈ order.visited) :
    collectEntry collect parent order entry = some order := by
  unfold collectEntry
  dsimp only
  rw [if_pos seen]
  exact ite_self _

theorem collect_new (collect : Text → Order → Option Order) (parent : Text) (order : Order)
    (entry : Entry) (directory : entry.isfile = false)
    (new : childPath parent entry.name ∉ order.visited) :
    collectEntry collect parent order entry = collect (childPath parent entry.name)
      { visited := childPath parent entry.name :: order.visited
        dirOrder := order.dirOrder ++ [childPath parent entry.name] } := by
  unfold collectEntry
  dsimp only
  rw [if_neg (by rw [directory]; decide), if_neg new]

def collected (here : List Text) (listing : Listing) (order : Order) : Order where
  visited := (dirPaths here listing).reverse ++ order.visited
  dirOrder := order.dirOrder ++ dirPaths here listing

theorem collected_dir (here : List Text) (name : Text) (children rest : Listing) (order : Order) :
    collected here (.dir name children rest) order =
      collected here rest (collected (here ++ [name]) children
        { visited := pathText (here ++ [name]) :: order.visited
          dirOrder := order.dirOrder ++ [pathText (here ++ [name])] }) := by
  unfold collected
  rw [dir_paths_dir]
  simp only [List.reverse_append, List.reverse_cons, List.append_assoc, List.cons_append,
    List.nil_append]

theorem collect_items {entries : List Entry} {here : List Text} {listing : Listing} {fuel : Nat}
    (good : AllNamed here) (tree : OsTree listing) (listed : Listed entries here listing)
    (order : Order) (fresh : ∀ path ∈ dirPaths here listing, path ∉ order.visited)
    (enough : listing.depth ≤ fuel) :
    (items (pathText here) listing).foldlM (collectEntry (collectDirs entries fuel) (pathText here))
      order = some (collected here listing order) := by
  induction listing generalizing here order fuel with
  | nil =>
      unfold collected
      simp only [items, dirPaths, dirs, List.map_nil, List.reverse_nil, List.nil_append,
        List.append_nil]
      rfl
  | file name content rest ih =>
      unfold items
      rw [List.foldlM_cons, collect_file]
      exact ih good tree.2.2 listed order fresh enough
  | dir name children rest ihChildren ih =>
      have nodup := dir_paths_nodup good tree
      obtain ⟨named, _, inner, later⟩ := tree
      rw [dir_paths_dir] at nodup fresh
      obtain ⟨ownNodup, _, apart⟩ := List.nodup_append.mp nodup
      have notBelow := (List.nodup_cons.mp ownNodup).1
      have key : childPath (pathText here) name = pathText (here ++ [name]) :=
        (path_text_snoc here name).symm
      have new := fresh (pathText (here ++ [name])) (List.mem_append_left _ List.mem_cons_self)
      unfold Listing.depth at enough
      obtain ⟨less, rfl⟩ : ∃ less, fuel = less + 1 := ⟨fuel - 1, by omega⟩
      unfold items
      rw [List.foldlM_cons, collect_new _ _ _ _ rfl (by rw [key]; exact new)]
      dsimp only
      rw [key, collectDirs, listed.own,
        ihChildren (good.snoc named) inner listed.inner _ _ (by omega)]
      · rw [collected_dir]
        apply ih good later listed.later _ _ (by omega)
        intro path member visited
        rcases List.mem_append.mp visited with underName | before
        · exact apart path (List.mem_cons_of_mem _ (List.mem_reverse.mp underName)) path member rfl
        · rcases List.mem_cons.mp before with own | old
          · exact apart path (by rw [own]; exact List.mem_cons_self) path member rfl
          · exact fresh path (List.mem_append_right _ member) old
      · intro path member visited
        rcases List.mem_cons.mp visited with own | old
        · rw [own] at member
          exact notBelow member
        · exact fresh path (List.mem_append_left _ (List.mem_cons_of_mem _ member)) old

/-- A directory whose subdirectories are all collected adds nothing. -/
theorem collect_items_seen (collect : Text → Order → Option Order) (here : List Text)
    (listing : Listing) (order : Order)
    (seen : ∀ path ∈ dirPaths here listing, path ∈ order.visited) :
    (items (pathText here) listing).foldlM (collectEntry collect (pathText here)) order =
      some order := by
  induction listing with
  | nil => rfl
  | file name content rest ih =>
      unfold items
      rw [List.foldlM_cons, collect_file]
      exact ih seen
  | dir name children rest _ ih =>
      rw [dir_paths_dir] at seen
      have own := seen (pathText (here ++ [name])) (List.mem_append_left _ List.mem_cons_self)
      unfold items
      rw [List.foldlM_cons, collect_seen _ _ _ _ (by rw [← path_text_snoc]; exact own)]
      exact ih fun path member => seen path (List.mem_append_right _ member)

/-- The root lists itself: it is collected by the first of two calls for it. -/
theorem collect_root {entries : List Entry} {tree : Listing} {fuel : Nat} (good : OsTree tree)
    (root : dirTree entries [] = rootEntry :: items [] tree) (listed : Listed entries [] tree)
    (enough : tree.depth ≤ fuel) :
    ∃ order, collectDirs entries (fuel + 2) [] { visited := [], dirOrder := [] } = some order ∧
      order.dirOrder = [] :: dirPaths [] tree := by
  have noNames : AllNamed [] := fun name member => absurd member List.not_mem_nil
  have notRoot := dir_paths_not_here noNames good
  have within : collectDirs entries (fuel + 1) [] { visited := [[]], dirOrder := [[]] } =
      some (collected [] tree { visited := [[]], dirOrder := [[]] }) := by
    rw [collectDirs, root, List.foldlM_cons, collect_seen _ _ _ _ List.mem_cons_self]
    apply collect_items noNames good listed _ _ enough
    intro path member visited
    rw [List.mem_singleton.mp visited] at member
    exact notRoot member
  refine ⟨collected [] tree { visited := [[]], dirOrder := [[]] }, ?_, rfl⟩
  rw [collectDirs, root, List.foldlM_cons, collect_new _ _ _ _ rfl List.not_mem_nil]
  change (collectDirs entries (fuel + 1) [] { visited := [[]], dirOrder := [[]] }).bind _ = _
  rw [within]
  apply collect_items_seen _ []
  intro path member
  exact List.mem_append_left _ (List.mem_reverse.mpr member)

end Collection

section Plan

def tableSpans (here : List Text) : Nat → Listing → List (Text × (Nat × Nat))
  | _, .nil => []
  | tableAt, .file _ _ rest => tableSpans here tableAt rest
  | tableAt, .dir name children rest =>
      (pathText (here ++ [name]), (tableAt, count children * entrySize)) ::
          tableSpans (here ++ [name]) (tableAt + count children * entrySize) children ++
        tableSpans here (tableAt + (count children + below children) * entrySize) rest

def fileSpans (here : List Text) : Nat → Listing → List ((Text × Text) × Span)
  | _, .nil => []
  | dataAt, .file name content rest =>
      ((pathText here, name), fileSpan dataAt content.length) ::
        fileSpans here (dataAt + content.length) rest
  | dataAt, .dir name children rest =>
      fileSpans (here ++ [name]) dataAt children ++
        fileSpans here (dataAt + (data children).length) rest

theorem table_spans_keys (here : List Text) (tableAt : Nat) (listing : Listing) :
    (tableSpans here tableAt listing).map Prod.fst = dirPaths here listing := by
  induction listing generalizing here tableAt with
  | nil => rfl
  | file name content rest ih => exact ih here tableAt
  | dir name children rest ihChildren ih =>
      rw [tableSpans, List.map_append, List.map_cons, ihChildren, ih, dir_paths_dir]

theorem file_spans_keys (here : List Text) (dataAt : Nat) (listing : Listing) :
    (fileSpans here dataAt listing).map Prod.fst = fileKeys here listing := by
  induction listing generalizing here dataAt with
  | nil => rfl
  | file name content rest ih => rw [fileSpans, List.map_cons, ih, fileKeys]
  | dir name children rest ihChildren ih =>
      rw [fileSpans, List.map_append, ihChildren, ih, fileKeys]

theorem plan_tables_cons (entries : List Entry) (path : Text) (rest : List Text) (curOffset : Nat) :
    planTables entries (path :: rest) curOffset =
      ((path, (curOffset, (dirTree entries path).length * entrySize)) ::
          (planTables entries rest (curOffset + (dirTree entries path).length * entrySize)).1,
        (planTables entries rest (curOffset + (dirTree entries path).length * entrySize)).2) :=
  rfl

theorem plan_tables_append (entries : List Entry) (first second : List Text) (curOffset : Nat) :
    planTables entries (first ++ second) curOffset =
      ((planTables entries first curOffset).1 ++
          (planTables entries second (planTables entries first curOffset).2).1,
        (planTables entries second (planTables entries first curOffset).2).2) := by
  induction first generalizing curOffset with
  | nil => rfl
  | cons path first ih =>
      rw [List.cons_append, plan_tables_cons, ih, plan_tables_cons]
      rfl

theorem plan_dirs {entries : List Entry} {here : List Text} {listing : Listing}
    (listed : Listed entries here listing) (tableAt : Nat) :
    planTables entries (dirPaths here listing) tableAt =
      (tableSpans here tableAt listing, tableAt + below listing * entrySize) := by
  induction listing generalizing here tableAt with
  | nil => simp only [dirPaths, dirs, List.map_nil, planTables, tableSpans, below, Nat.zero_mul,
      Nat.add_zero]
  | file name content rest ih => exact ih listed tableAt
  | dir name children rest ihChildren ih =>
      have own : planTables entries
            (pathText (here ++ [name]) :: dirPaths (here ++ [name]) children) tableAt =
          ((pathText (here ++ [name]), (tableAt, count children * entrySize)) ::
              tableSpans (here ++ [name]) (tableAt + count children * entrySize) children,
            tableAt + (count children + below children) * entrySize) := by
        rw [plan_tables_cons, listed.own, items_length, ihChildren listed.inner, Nat.add_assoc,
          ← Nat.add_mul]
      rw [dir_paths_dir, plan_tables_append, own]
      dsimp only
      rw [ih listed.later, tableSpans, below, Nat.add_assoc, ← Nat.add_mul]

theorem plan_files_file (fileDataOffset : Nat) (entry : Entry) (rest : List Entry)
    (fileData : List Byte) (file : entry.isfile = true) :
    planFiles fileDataOffset (entry :: rest) fileData =
      (((entry.parent, entry.name), fileSpan (fileDataOffset + fileData.length) entry.size) ::
          (planFiles fileDataOffset rest (fileData ++ entry.content)).1,
        (planFiles fileDataOffset rest (fileData ++ entry.content)).2) := by
  rw [planFiles, if_pos file]

theorem plan_files_dir (fileDataOffset : Nat) (entry : Entry) (rest : List Entry)
    (fileData : List Byte) (directory : entry.isfile = false) :
    planFiles fileDataOffset (entry :: rest) fileData = planFiles fileDataOffset rest fileData := by
  rw [planFiles, if_neg (by rw [directory]; exact Bool.false_ne_true)]

theorem plan_files_append (fileDataOffset : Nat) (first second : List Entry)
    (fileData : List Byte) :
    planFiles fileDataOffset (first ++ second) fileData =
      ((planFiles fileDataOffset first fileData).1 ++
          (planFiles fileDataOffset second (planFiles fileDataOffset first fileData).2).1,
        (planFiles fileDataOffset second (planFiles fileDataOffset first fileData).2).2) := by
  induction first generalizing fileData with
  | nil => rfl
  | cons entry first ih =>
      rw [List.cons_append]
      cases kind : entry.isfile with
      | false => rw [plan_files_dir _ _ _ _ kind, plan_files_dir _ _ _ _ kind, ih]
      | true =>
          rw [plan_files_file _ _ _ _ kind, plan_files_file _ _ _ _ kind, ih]
          rfl

theorem plan_files_below (fileDataOffset : Nat) (here : List Text) (listing : Listing)
    (fileData : List Byte) :
    planFiles fileDataOffset (entriesBelow (pathText here) listing) fileData =
      (fileSpans here (fileDataOffset + fileData.length) listing, fileData ++ data listing) := by
  induction listing generalizing here fileData with
  | nil => simp only [entriesBelow, planFiles, fileSpans, data, List.append_nil]
  | file name content rest ih =>
      unfold entriesBelow
      rw [plan_files_file _ _ _ _ rfl, ih, List.length_append, ← Nat.add_assoc, List.append_assoc]
      rfl
  | dir name children rest ihChildren ih =>
      have own : planFiles fileDataOffset (⟨name, false, pathText here, []⟩ ::
            entriesBelow (childPath (pathText here) name) children) fileData =
          (fileSpans (here ++ [name]) (fileDataOffset + fileData.length) children,
            fileData ++ data children) := by
        rw [plan_files_dir _ _ _ _ rfl, ← path_text_snoc, ihChildren]
      unfold entriesBelow
      rw [plan_files_append, own]
      dsimp only
      rw [ih, List.length_append, ← Nat.add_assoc, List.append_assoc]
      rfl

theorem dict_get_member {κ ν : Type} [DecidableEq κ] {items : List (κ × ν)} {item : κ × ν}
    (nodup : (items.map Prod.fst).Nodup) (member : item ∈ items) :
    dictGet items item.1 = some item.2 := by
  have found : ∀ items : List (κ × ν), (items.map Prod.fst).Nodup → item ∈ items →
      items.find? (fun other => other.1 = item.1) = some item := by
    intro items
    induction items with
    | nil => exact fun _ absent => absurd absent List.not_mem_nil
    | cons first items ih =>
        intro nodup member
        rw [List.map_cons, List.nodup_cons] at nodup
        rcases List.mem_cons.mp member with rfl | later
        · exact List.find?_cons_of_pos (decide_eq_true rfl)
        · have other : first.1 ≠ item.1 := by
            intro same
            rw [same] at nodup
            exact nodup.1 (List.mem_map_of_mem later)
          rw [List.find?_cons_of_neg (by simpa using other)]
          exact ih nodup.2 later
  have reversed : (items.reverse.map Prod.fst).Nodup := by
    rw [List.map_reverse]
    exact List.nodup_reverse.mpr nodup
  unfold dictGet
  rw [found items.reverse reversed (List.mem_reverse.mpr member)]
  rfl

end Plan

section Tables

variable {entries : List Entry} {dirOffsets : List (Text × (Nat × Nat))}
  {fileOffsets : List ((Text × Text) × Span)}

theorem join_append {α : Type} (pack : α → Option (List Byte)) {first second : List α}
    {front behind : List Byte} (firstPacked : joinAll pack first = some front)
    (secondPacked : joinAll pack second = some behind) :
    joinAll pack (first ++ second) = some (front ++ behind) := by
  induction first generalizing front with
  | nil =>
      rw [← Option.some.inj firstPacked]
      exact secondPacked
  | cons part first ih =>
      unfold joinAll at firstPacked
      obtain ⟨bytes, packed, rest⟩ := Option.bind_eq_some_iff.mp firstPacked
      obtain ⟨more, joined, whole⟩ := Option.map_eq_some_iff.mp rest
      rw [List.cons_append, joinAll, packed, Option.bind_some, ih joined, ← whole, Option.map_some,
        List.append_assoc]

theorem join_cons {α : Type} (pack : α → Option (List Byte)) {part : α} {rest : List α}
    {bytes more : List Byte} (packed : pack part = some bytes)
    (joined : joinAll pack rest = some more) :
    joinAll pack (part :: rest) = some (bytes ++ more) := by
  rw [joinAll, packed, Option.bind_some, joined, Option.map_some]

theorem pack_file_row {here : List Text} {name : Text} {content : List Byte} {dataAt : Nat}
    (planned : dictGet fileOffsets (pathText here, name) = some (fileSpan dataAt content.length))
    (fits : RowFits (fileRow name content dataAt)) :
    packRow entries dirOffsets fileOffsets (pathText here) ⟨name, true, pathText here, content⟩ =
      some (encodeRow (fileRow name content dataAt)) := by
  have packed := pack_entry_fits (fileRow name content dataAt) fits
  unfold packRow
  rw [if_pos rfl]
  dsimp only
  rw [planned]
  exact packed

theorem pack_dir_row {here : List Text} {name : Text} {children : Listing} {tableAt : Nat}
    (named : name ≠ [])
    (own : dirTree entries (pathText (here ++ [name])) = items (pathText (here ++ [name])) children)
    (planned : dictGet dirOffsets (pathText (here ++ [name])) =
      some (tableAt, count children * entrySize))
    (fits : RowFits (dirRow name tableAt (count children))) :
    packRow entries dirOffsets fileOffsets (pathText here) ⟨name, false, pathText here, []⟩ =
      some (encodeRow (dirRow name tableAt (count children))) := by
  have packed := pack_entry_fits (dirRow name tableAt (count children)) fits
  unfold packRow
  rw [if_neg Bool.false_ne_true]
  dsimp only
  rw [← path_text_snoc, own, items_length]
  by_cases empty : count children = 0
  · rw [if_pos empty]
    have span : (dirRow name tableAt (count children)).span = ⟨0, 0, 0, 0⟩ := if_pos empty
    rw [span] at packed
    exact packed
  · rw [if_neg empty, planned]
    have span : (dirRow name tableAt (count children)).span =
        tableSpan tableAt (count children * entrySize) := if_neg empty
    rw [span] at packed
    change packEntry name 0 false ⟨_, _, (if _ then _ else _), _⟩ = _
    rw [if_neg (fun root => named root.2)]
    exact packed

theorem pack_items {here : List Text} {listing : Listing} {tableAt dataAt : Nat}
    (tree : OsTree listing) (listed : Listed entries here listing)
    (tablesPlanned : ∀ item ∈ tableSpans here tableAt listing,
      dictGet dirOffsets item.1 = some item.2)
    (filesPlanned : ∀ item ∈ fileSpans here dataAt listing,
      dictGet fileOffsets item.1 = some item.2)
    (fits : ∀ row ∈ rows tableAt dataAt listing, RowFits row) :
    joinAll (packRow entries dirOffsets fileOffsets (pathText here))
      (items (pathText here) listing) = some (encodeRows (rows tableAt dataAt listing)) := by
  induction listing generalizing tableAt dataAt with
  | nil => rfl
  | file name content rest ih =>
      unfold items rows
      rw [encode_rows_cons]
      apply join_cons
      · exact pack_file_row (filesPlanned _ List.mem_cons_self) (fits _ List.mem_cons_self)
      · apply ih tree.2.2 listed tablesPlanned
        · exact fun item member => filesPlanned item (List.mem_cons_of_mem _ member)
        · exact fun row member => fits row (List.mem_cons_of_mem _ member)
  | dir name children rest _ ih =>
      obtain ⟨named, _, _, later⟩ := tree
      unfold items rows
      rw [encode_rows_cons]
      apply join_cons
      · exact pack_dir_row named.nonempty listed.own (tablesPlanned _ List.mem_cons_self)
          (fits _ List.mem_cons_self)
      · apply ih later listed.later
        · exact fun item member => tablesPlanned item (List.mem_append_right _ member)
        · exact fun item member => filesPlanned item (List.mem_append_right _ member)
        · exact fun row member => fits row (List.mem_cons_of_mem _ member)

theorem pack_dirs {here : List Text} {listing : Listing} {tableAt dataAt : Nat}
    (tree : OsTree listing) (listed : Listed entries here listing)
    (tablesPlanned : ∀ item ∈ tableSpans here tableAt listing,
      dictGet dirOffsets item.1 = some item.2)
    (filesPlanned : ∀ item ∈ fileSpans here dataAt listing,
      dictGet fileOffsets item.1 = some item.2)
    (fits : ∀ row ∈ tables tableAt dataAt listing, RowFits row) :
    joinAll (packTable entries dirOffsets fileOffsets) (dirPaths here listing) =
      some (encodeRows (tables tableAt dataAt listing)) := by
  induction listing generalizing here tableAt dataAt with
  | nil => rfl
  | file name content rest ih =>
      exact ih tree.2.2 listed tablesPlanned
        (fun item member => filesPlanned item (List.mem_cons_of_mem _ member)) fits
  | dir name children rest ihChildren ih =>
      obtain ⟨_, _, inner, later⟩ := tree
      unfold tables at fits
      have innerTables : ∀ item ∈ tableSpans (here ++ [name])
          (tableAt + count children * entrySize) children,
          dictGet dirOffsets item.1 = some item.2 := fun item member =>
        tablesPlanned item (List.mem_append_left _ (List.mem_cons_of_mem _ member))
      have innerFiles : ∀ item ∈ fileSpans (here ++ [name]) dataAt children,
          dictGet fileOffsets item.1 = some item.2 := fun item member =>
        filesPlanned item (List.mem_append_left _ member)
      rw [dir_paths_dir]
      unfold tables
      rw [encode_rows_append, encode_rows_append]
      apply join_append
      · apply join_cons
        · unfold packTable
          rw [listed.own]
          apply pack_items inner listed.inner innerTables innerFiles
          exact fun row member => fits row (List.mem_append_left _ (List.mem_append_left _ member))
        · apply ihChildren inner listed.inner innerTables innerFiles
          exact fun row member => fits row (List.mem_append_left _ (List.mem_append_right _ member))
      · apply ih later listed.later
        · exact fun item member => tablesPlanned item (List.mem_append_right _ member)
        · exact fun item member => filesPlanned item (List.mem_append_right _ member)
        · exact fun row member => fits row (List.mem_append_right _ member)

end Tables

section Image

def header (entries : Nat) : List Byte :=
  [0x4C, 0x75, 0x46, 0x53] ++ encodeLE 4 entries ++ List.replicate (sectorSize - 8) 0

def memDisk (tree : Listing) : List Byte :=
  ljust (dataStart tree) (header (count tree + below tree + 1) ++ encodeRows (allRows tree)) ++
    data tree

theorem entries_below_length (relPath : Text) (listing : Listing) :
    (entriesBelow relPath listing).length = count listing + below listing := by
  induction listing generalizing relPath with
  | nil => rfl
  | file name content rest ih =>
      simp only [entriesBelow, List.length_cons, ih, count, below]
      omega
  | dir name children rest ihChildren ih =>
      simp only [entriesBelow, List.length_append, List.length_cons, ihChildren, ih, count, below]
      omega

theorem root_good : AllNamed [] := fun _ member => absurd member List.not_mem_nil

theorem root_table {tree : Listing} (good : OsTree tree) :
    dirTree (getEntriesFromDir tree) [] = rootEntry :: items [] tree := by
  have own : dirTree (entriesBelow [] tree) [] = items [] tree := dir_tree_here root_good good
  unfold getEntriesFromDir
  rw [dir_tree_cons_same rootEntry _ [] rfl, own]

theorem root_listed {tree : Listing} (good : OsTree tree) :
    Listed (getEntriesFromDir tree) [] tree := by
  intro found member
  have other : rootEntry.parent ≠ pathText found.1 := by
    intro same
    apply dir_paths_not_here root_good good
    exact List.mem_map.mpr ⟨found, member, same.symm⟩
  unfold getEntriesFromDir
  rw [dir_tree_cons_other _ _ _ other]
  exact dir_tree_below root_good good member

theorem root_row_fits {tree : Listing} (fit : NumbersFit tree) :
    RowFits (rootRow (count tree + 1)) := by
  have bound : count tree + below tree + 1 < 2 ^ 32 := fit.1
  unfold RowFits rootRow tableSpan sectorSize entrySize
  dsimp only
  omega

theorem pack_root_row {entries : List Entry} {dirOffsets : List (Text × (Nat × Nat))}
    {fileOffsets : List ((Text × Text) × Span)} {tree : Listing}
    (own : dirTree entries [] = rootEntry :: items [] tree)
    (planned : dictGet dirOffsets [] = some (sectorSize, (count tree + 1) * entrySize))
    (fits : RowFits (rootRow (count tree + 1))) :
    packRow entries dirOffsets fileOffsets [] rootEntry =
      some (encodeRow (rootRow (count tree + 1))) := by
  have root : childPath [] rootEntry.name = [] := rfl
  have directory : ¬ rootEntry.isfile = true := Bool.false_ne_true
  have packed := pack_entry_fits (rootRow (count tree + 1)) fits
  unfold packRow
  rw [if_neg directory]
  dsimp only
  rw [root, own, List.length_cons, items_length, if_neg (Nat.succ_ne_zero _), planned]
  exact packed

def allSpans (tree : Listing) : List (Text × (Nat × Nat)) :=
  ([], (sectorSize, (count tree + 1) * entrySize)) :: tableSpans [] (tablesStart tree) tree

theorem plan_made {tree : Listing} (good : OsTree tree) {fuel : Nat}
    (enough : tree.depth + 2 ≤ fuel) :
    ∃ order, collectDirs (getEntriesFromDir tree) fuel [] { visited := [], dirOrder := [] } =
        some order ∧ order.dirOrder = [] :: dirPaths [] tree ∧
      planTables (getEntriesFromDir tree) order.dirOrder sectorSize =
        (allSpans tree, tablesStart tree + below tree * entrySize) := by
  obtain ⟨less, rfl⟩ : ∃ less, fuel = less + 2 := ⟨fuel - 2, by omega⟩
  have own := root_table good
  have listed := root_listed good
  obtain ⟨order, ordered, places⟩ :=
    collect_root good own listed (show tree.depth ≤ less by omega)
  refine ⟨order, ordered, places, ?_⟩
  rw [places, plan_tables_cons, own, List.length_cons, items_length, plan_dirs listed]
  rfl

theorem tables_planned {tree : Listing} (good : OsTree tree) :
    ∀ item ∈ allSpans tree, dictGet (allSpans tree) item.1 = some item.2 := by
  have keys : ((allSpans tree).map Prod.fst).Nodup := by
    unfold allSpans
    rw [List.map_cons, table_spans_keys]
    exact List.nodup_cons.mpr ⟨dir_paths_not_here root_good good, dir_paths_nodup root_good good⟩
  exact fun item member => dict_get_member keys member

theorem plan_files_made (dataAt : Nat) (tree : Listing) :
    planFiles dataAt (getEntriesFromDir tree) [] = (fileSpans [] dataAt tree, data tree) := by
  have planBelow := plan_files_below dataAt [] tree []
  rw [List.length_nil, Nat.add_zero, List.nil_append] at planBelow
  unfold getEntriesFromDir
  rw [plan_files_dir _ _ _ _ rfl]
  exact planBelow

theorem files_planned {tree : Listing} (good : OsTree tree) (dataAt : Nat) :
    ∀ item ∈ fileSpans [] dataAt tree,
      dictGet (fileSpans [] dataAt tree) item.1 = some item.2 := by
  have keys : ((fileSpans [] dataAt tree).map Prod.fst).Nodup := by
    rw [file_spans_keys]
    exact file_keys_nodup root_good good
  exact fun item member => dict_get_member keys member

/-- What is left of the writer when its plan is known. -/
theorem makefs_planned {tree : Listing} (good : OsTree tree) {fuel : Nat}
    (enough : tree.depth + 2 ≤ fuel) :
    makefs fuel tree =
      (packHeader (count tree + below tree + 1)).bind fun head =>
        (joinAll (packTable (getEntriesFromDir tree) (allSpans tree)
          (fileSpans [] (dataStart tree) tree)) ([] :: dirPaths [] tree)).bind fun body =>
        some (writeSectors (ljust (dataStart tree) (head ++ body) ++ data tree).length
          (ljust (dataStart tree) (head ++ body) ++ data tree)) := by
  obtain ⟨order, ordered, places, planned⟩ := plan_made good enough
  rw [places] at planned
  have files := plan_files_made (dataStart tree) tree
  have number : (getEntriesFromDir tree).length = count tree + below tree + 1 := by
    unfold getEntriesFromDir
    rw [List.length_cons, entries_below_length]
  have dataOffset : ceilSector (tablesStart tree + below tree * entrySize) = dataStart tree := rfl
  unfold makefs
  simp only [Option.bind_eq_bind, ordered, Option.bind_some, places, planned, dataOffset, files,
    number]

theorem makefs_image {tree : Listing} (good : OsTree tree) (fit : NumbersFit tree) {fuel : Nat}
    (enough : tree.depth + 2 ≤ fuel) :
    makefs fuel tree = some (writeSectors (memDisk tree).length (memDisk tree)) := by
  have own := root_table good
  have listed := root_listed good
  have small := tables_small fit
  have tablesPlanned := tables_planned good
  have belowPlanned := fun item (member : item ∈ tableSpans [] (tablesStart tree) tree) =>
    tablesPlanned item (List.mem_cons_of_mem _ member)
  have filesPlanned := files_planned good (dataStart tree)
  have body : joinAll (packTable (getEntriesFromDir tree) (allSpans tree)
      (fileSpans [] (dataStart tree) tree)) ([] :: dirPaths [] tree) =
        some (encodeRows (allRows tree)) := by
    unfold allRows
    rw [encode_rows_append, encode_rows_cons]
    apply join_cons
    · unfold packTable
      rw [own]
      apply join_cons
      · exact pack_root_row own (tablesPlanned _ List.mem_cons_self) (root_row_fits fit)
      · exact pack_items good listed belowPlanned filesPlanned (rows_fit fit.2 small)
    · exact pack_dirs good listed belowPlanned filesPlanned (tables_fit fit.2 small)
  have head : packHeader (count tree + below tree + 1) =
      some (header (count tree + below tree + 1)) := if_pos fit.1
  rw [makefs_planned good enough, head, Option.bind_some, body]
  rfl

theorem join_parts {α : Type} {pack : α → Option (List Byte)} {parts : List α} {bytes : List Byte}
    (joined : joinAll pack parts = some bytes) : ∀ part ∈ parts, ∃ own, pack part = some own := by
  induction parts generalizing bytes with
  | nil => exact fun _ member => absurd member List.not_mem_nil
  | cons first parts ih =>
      obtain ⟨own, packed, rest⟩ := Option.bind_eq_some_iff.mp joined
      obtain ⟨more, joinedRest, _⟩ := Option.map_eq_some_iff.mp rest
      intro part member
      rcases List.mem_cons.mp member with rfl | later
      · exact ⟨own, packed⟩
      · exact ih joinedRest part later

theorem packed_entry_fits {name : Text} {size : Nat} {isfile : Bool} {span : Span}
    {bytes : List Byte} (packed : packEntry name size isfile span = some bytes) :
    size < 2 ^ 32 ∧ span.startBlock < 2 ^ 32 ∧ span.endBlock < 2 ^ 32 := by
  unfold packEntry at packed
  split at packed
  · rename_i fits
    exact ⟨fits.1, fits.2.1, fits.2.2.1⟩
  · cases packed

section Packed

variable {entries : List Entry} {dirOffsets : List (Text × (Nat × Nat))}
  {fileOffsets : List ((Text × Text) × Span)}

def Packed (entries : List Entry) (dirOffsets : List (Text × (Nat × Nat)))
    (fileOffsets : List ((Text × Text) × Span)) (path : Text) (table : List Entry) : Prop :=
  ∀ entry ∈ table, ∃ bytes, packRow entries dirOffsets fileOffsets path entry = some bytes

theorem packed_file_row {here : List Text} {name : Text} {content : List Byte} {dataAt : Nat}
    {bytes : List Byte}
    (planned : dictGet fileOffsets (pathText here, name) = some (fileSpan dataAt content.length))
    (packed : packRow entries dirOffsets fileOffsets (pathText here)
      ⟨name, true, pathText here, content⟩ = some bytes) :
    content.length < 2 ^ 32 ∧ (fileSpan dataAt content.length).startBlock < 2 ^ 32 ∧
      (fileSpan dataAt content.length).endBlock < 2 ^ 32 := by
  unfold packRow at packed
  rw [if_pos rfl] at packed
  dsimp only at packed
  rw [planned, Option.bind_some] at packed
  exact packed_entry_fits packed

theorem packed_files_fit (here : List Text) {listing : Listing} {dataAt : Nat}
    (planned : ∀ item ∈ fileSpans here dataAt listing, dictGet fileOffsets item.1 = some item.2)
    (own : Packed entries dirOffsets fileOffsets (pathText here) (items (pathText here) listing))
    (under : ∀ found ∈ dirs here listing, Packed entries dirOffsets fileOffsets
      (pathText found.1) (items (pathText found.1) found.2)) :
    FilesFit dataAt listing := by
  induction listing generalizing here dataAt with
  | nil => trivial
  | file name content rest ih =>
      obtain ⟨bytes, packed⟩ := own _ List.mem_cons_self
      obtain ⟨size, first, last⟩ := packed_file_row (planned _ List.mem_cons_self) packed
      refine ⟨size, first, last, ih here ?_ ?_ under⟩
      · exact fun item member => planned item (List.mem_cons_of_mem _ member)
      · exact fun entry member => own entry (List.mem_cons_of_mem _ member)
  | dir name children rest ihChildren ih =>
      refine ⟨ihChildren (here ++ [name]) ?_ ?_ ?_, ih here ?_ ?_ ?_⟩
      · exact fun item member => planned item (List.mem_append_left _ member)
      · exact under (here ++ [name], children) List.mem_cons_self
      · exact fun found member =>
          under found (List.mem_append_left _ (List.mem_cons_of_mem _ member))
      · exact fun item member => planned item (List.mem_append_right _ member)
      · exact fun entry member => own entry (List.mem_cons_of_mem _ member)
      · exact fun found member => under found (List.mem_append_right _ member)

end Packed

theorem makefs_fits {tree : Listing} (good : OsTree tree) {fuel : Nat}
    (enough : tree.depth + 2 ≤ fuel) {image : List Byte} (made : makefs fuel tree = some image) :
    NumbersFit tree := by
  rw [makefs_planned good enough] at made
  obtain ⟨head, headPacked, rest⟩ := Option.bind_eq_some_iff.mp made
  obtain ⟨body, joined, _⟩ := Option.bind_eq_some_iff.mp rest
  have few : count tree + below tree + 1 < 2 ^ 32 := by
    unfold packHeader at headPacked
    split at headPacked
    · assumption
    · cases headPacked
  have tables := join_parts joined
  have packed : ∀ path ∈ [] :: dirPaths [] tree, Packed (getEntriesFromDir tree) (allSpans tree)
      (fileSpans [] (dataStart tree) tree) path (dirTree (getEntriesFromDir tree) path) := by
    intro path member
    obtain ⟨table, packedTable⟩ := tables path member
    exact join_parts packedTable
  have rootPacked : Packed (getEntriesFromDir tree) (allSpans tree)
      (fileSpans [] (dataStart tree) tree) [] (items [] tree) := by
    intro entry member
    apply packed [] List.mem_cons_self
    rw [root_table good]
    exact List.mem_cons_of_mem _ member
  have innerPacked : ∀ found ∈ dirs [] tree, Packed (getEntriesFromDir tree) (allSpans tree)
      (fileSpans [] (dataStart tree) tree) (pathText found.1)
      (items (pathText found.1) found.2) := by
    intro found member
    rw [← root_listed good found member]
    apply packed
    exact List.mem_cons_of_mem _ (List.mem_map.mpr ⟨found, member, rfl⟩)
  exact ⟨few, packed_files_fit [] (files_planned good (dataStart tree)) rootPacked innerPacked⟩

theorem makefs_returns_iff {tree : Listing} (good : OsTree tree) {fuel : Nat}
    (enough : tree.depth + 2 ≤ fuel) : (makefs fuel tree).isSome ↔ NumbersFit tree := by
  constructor
  · intro returns
    obtain ⟨image, made⟩ := Option.isSome_iff_exists.mp returns
    exact makefs_fits good enough made
  · intro fit
    rw [makefs_image good fit enough]
    rfl

end Image

end LumenOS.LufsWriter
