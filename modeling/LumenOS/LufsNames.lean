import LumenOS.LufsRoundTrip

/-!
# Names that the tables keep

A row has 32 bytes for its name, and the writer cuts what is longer. A table
read back then names its entries as the directory does when no name is cut, or
when the cut goes through a last character that was the replacement character
to begin with.
-/

namespace LumenOS.LufsNames

open LumenOS.ByteMemory LumenOS.FileTree LumenOS.LufsModel LumenOS.LufsLayout LumenOS.LufsPaths
open LumenOS.LufsWriter LumenOS.LufsReader LumenOS.LufsRoundTrip

set_option autoImplicit false

section OneName

def KeepsName (name : Text) : Prop :=
  (Utf8.encode name).length ≤ 32 ∨
    ∃ front, name = front ++ [Utf8.replacement] ∧ (Utf8.encode front).length < 32

theorem stored_name_take {name : Text} (noNul : Char.ofNat 0 ∉ name) :
    storedName name = Utf8.decode ((Utf8.encode name).take 32) := by
  have clean : (0 : Byte) ∉ (Utf8.encode name).take 32 :=
    fun zero => noNul (Utf8.zero_mem_encode (List.mem_of_mem_take zero))
  unfold storedName ljust
  rw [rstrip_nul_padded _ _ clean]

/-- The field keeps exactly the names that `KeepsName` describes. -/
theorem stored_name_iff {name : Text} (noNul : Char.ofNat 0 ∉ name) :
    storedName name = name ↔ KeepsName name := by
  by_cases short : (Utf8.encode name).length ≤ 32
  · exact ⟨fun _ => Or.inl short, fun _ => stored_name_short short noNul⟩
  · have long : 32 < (Utf8.encode name).length := by omega
    obtain ⟨front, c, behind, split, before, after⟩ := Utf8.split_at_bound name 32 long
    rw [stored_name_take noNul]
    constructor
    · intro same
      rw [split, Utf8.decode_take before after] at same
      have tails := List.append_cancel_left same
      by_cases whole : (Utf8.encode front).length = 32
      · rw [if_pos whole] at tails
        cases tails
      · rw [if_neg whole] at tails
        obtain ⟨character, nothing⟩ := List.cons.inj tails
        refine Or.inr ⟨front, ?_, by omega⟩
        rw [split, ← character, ← nothing]
    · intro keeps
      rcases keeps with fits | ⟨start, ends, room⟩
      · exact absurd fits short
      · have beyond :
            32 < (Utf8.encode start).length + (Utf8.encodeChar Utf8.replacement).length := by
          rw [ends, Utf8.encode_append, List.length_append] at long
          exact long
        rw [ends, Utf8.decode_take (Nat.le_of_lt room) beyond, if_neg (Nat.ne_of_lt room)]

end OneName

section Tables

def storedNames (image : List Byte) (table : Text × (Nat × Nat)) : List Text :=
  (readDirTable image table.2.1 (table.2.2 / entrySize)).map TableEntry.name

/-- In every table the writer plans the names are the directory's own, and
those of two siblings differ. -/
def NamesKept (fuel : Nat) (tree : Listing) (image : List Byte) : Prop :=
  ∀ order, collectDirs (getEntriesFromDir tree) fuel [] { visited := [], dirOrder := [] } =
      some order →
    ∀ table ∈ (planTables (getEntriesFromDir tree) order.dirOrder sectorSize).1,
      (storedNames image table).Nodup ∧
        storedNames image table = (dirTree (getEntriesFromDir tree) table.1).map Entry.name

def EveryName (keeps : Text → Prop) : Listing → Prop
  | .nil => True
  | .file name _ rest => keeps name ∧ EveryName keeps rest
  | .dir name children rest => keeps name ∧ EveryName keeps children ∧ EveryName keeps rest

theorem every_name_iff (keeps : Text → Prop) (here : List Text) (listing : Listing) :
    EveryName keeps listing ↔ (∀ name ∈ listing.names, keeps name) ∧
      ∀ found ∈ dirs here listing, ∀ name ∈ found.2.names, keeps name := by
  induction listing generalizing here with
  | nil => exact ⟨fun _ => ⟨by simp [Listing.names], by simp [dirs]⟩, fun _ => trivial⟩
  | file name content rest ih =>
      simp only [EveryName, ih here, Listing.names, dirs, List.forall_mem_cons, and_assoc]
  | dir name children rest ihChildren ih =>
      simp only [EveryName, ih here, ihChildren (here ++ [name]), Listing.names, dirs,
        List.forall_mem_append, List.forall_mem_cons]
      constructor
      · rintro ⟨own, ⟨inner, innerBelow⟩, later, laterBelow⟩
        exact ⟨⟨own, later⟩, ⟨inner, innerBelow⟩, laterBelow⟩
      · rintro ⟨⟨own, later⟩, ⟨inner, innerBelow⟩, laterBelow⟩
        exact ⟨own, ⟨inner, innerBelow⟩, later, laterBelow⟩

theorem rows_names (tableAt dataAt : Nat) (listing : Listing) :
    (rows tableAt dataAt listing).map TableEntry.name = listing.names := by
  induction listing generalizing tableAt dataAt with
  | nil => rfl
  | file name content rest ih => rw [rows, List.map_cons, ih]; rfl
  | dir name children rest _ ih => rw [rows, List.map_cons, ih]; rfl

theorem items_names (relPath : Text) (listing : Listing) :
    (items relPath listing).map Entry.name = listing.names := by
  induction listing with
  | nil => rfl
  | file name content rest ih => rw [items, List.map_cons, ih]; rfl
  | dir name children rest _ ih => rw [items, List.map_cons, ih]; rfl

theorem unpack_name (row : TableEntry) :
    (unpackEntry (encodeRow row)).name = storedName row.name := by
  have field : (encodeRow row).take 32 = ljust 32 ((Utf8.encode row.name).take 32) := by
    unfold encodeRow
    simp only [List.append_assoc]
    apply List.take_left'
    unfold ljust
    rw [List.length_append, List.length_replicate, List.length_take]
    omega
  unfold unpackEntry storedName
  rw [field]

theorem stored_names_rows {image : List Byte} {table : Text × (Nat × Nat)}
    {packed : List TableEntry} (holds : Holds image table.2.1 (encodeRows packed))
    (size : table.2.2 = packed.length * entrySize) :
    storedNames image table = (packed.map TableEntry.name).map storedName := by
  have number : table.2.2 / entrySize = packed.length := by
    rw [size]
    exact Nat.mul_div_cancel packed.length (by decide)
  unfold storedNames
  rw [number, read_dir_table_encoded holds, List.map_map, List.map_map]
  exact List.map_congr_left fun row _ => unpack_name row

theorem tables_hold {image : List Byte} {here : List Text} {listing : Listing}
    {tableAt dataAt : Nat}
    (holds : Holds image tableAt (encodeRows (tables tableAt dataAt listing))) :
    List.Forall₂ (fun table found => table.1 = pathText found.1 ∧
        storedNames image table = found.2.names.map storedName)
      (tableSpans here tableAt listing) (dirs here listing) := by
  induction listing generalizing here tableAt dataAt with
  | nil => exact List.Forall₂.nil
  | file name content rest ih => exact ih holds
  | dir name children rest ihChildren ih =>
      obtain ⟨own, inner, later⟩ := holds_tables holds
      have names := @stored_names_rows image
        (pathText (here ++ [name]), (tableAt, count children * entrySize)) _ own
        (by rw [rows_length])
      rw [rows_names] at names
      exact List.rel_append (List.Forall₂.cons ⟨rfl, names⟩ (ihChildren inner)) (ih later)

end Tables

section Kept

theorem names_nodup {listing : Listing} (os : OsTree listing) : listing.names.Nodup := by
  induction listing with
  | nil => exact List.nodup_nil
  | file name content rest ih =>
      exact List.nodup_cons.mpr ⟨OsTree.distinct os.2.1, ih os.2.2⟩
  | dir name children rest _ ih =>
      exact List.nodup_cons.mpr ⟨OsTree.distinct os.2.1, ih os.2.2.2⟩

theorem names_os {listing : Listing} (os : OsTree listing) :
    ∀ name ∈ listing.names, OsName name := by
  induction listing with
  | nil => exact fun _ member => absurd member List.not_mem_nil
  | file name content rest ih => exact List.forall_mem_cons.mpr ⟨os.1, ih os.2.2⟩
  | dir name children rest _ ih => exact List.forall_mem_cons.mpr ⟨os.1, ih os.2.2.2⟩

theorem dirs_os {here : List Text} {listing : Listing} (os : OsTree listing) :
    ∀ found ∈ dirs here listing, OsTree found.2 := by
  induction listing generalizing here with
  | nil => exact fun _ member => absurd member List.not_mem_nil
  | file name content rest ih => exact ih os.2.2
  | dir name children rest ihChildren ih =>
      exact List.forall_mem_append.mpr
        ⟨List.forall_mem_cons.mpr ⟨os.2.2.1, ihChildren os.2.2.1⟩, ih os.2.2.2⟩

theorem directory_kept_iff {listing : Listing} (os : OsTree listing) :
    (listing.names.map storedName).Nodup ∧ listing.names.map storedName = listing.names ↔
      ∀ name ∈ listing.names, KeepsName name := by
  have same : listing.names.map storedName = listing.names ↔
      ∀ name ∈ listing.names, storedName name = name := by
    have pointwise := @List.map_inj_left _ _ listing.names storedName id
    rw [List.map_id] at pointwise
    exact pointwise
  have each : (∀ name ∈ listing.names, storedName name = name) ↔
      ∀ name ∈ listing.names, KeepsName name :=
    forall₂_congr fun name member => stored_name_iff (names_os os name member).noNul
  constructor
  · exact fun kept => each.mp (same.mp kept.2)
  · intro keeps
    have equal := same.mpr (each.mpr keeps)
    refine ⟨?_, equal⟩
    rw [equal]
    exact names_nodup os

theorem forall_mem_iff {α β : Type} {related : α → β → Prop} {first : α → Prop}
    {second : β → Prop} {left : List α} {right : List β}
    (aligned : List.Forall₂ related left right)
    (same : ∀ a, ∀ b ∈ right, related a b → (first a ↔ second b)) :
    (∀ a ∈ left, first a) ↔ ∀ b ∈ right, second b := by
  induction aligned with
  | nil => exact ⟨fun _ _ member => absurd member List.not_mem_nil,
      fun _ _ member => absurd member List.not_mem_nil⟩
  | cons pair _ ih =>
      rw [List.forall_mem_cons, List.forall_mem_cons, same _ _ List.mem_cons_self pair,
        ih fun a b member => same a b (List.mem_cons_of_mem _ member)]

/-- The tables of the layout name what the directories list when every name is kept. -/
theorem layout_names_kept_iff {tree : Listing} (os : OsTree tree) {fuel : Nat}
    (enough : tree.depth + 2 ≤ fuel) :
    NamesKept fuel tree (lufsImage tree) ↔ EveryName KeepsName tree := by
  obtain ⟨order, ordered, _, planned⟩ := plan_made os enough
  obtain ⟨_, holds, _⟩ := image_holds tree
  unfold allRows at holds
  rw [encode_rows_append] at holds
  have under := holds.right
  rw [tables_start_length] at under
  have root : storedNames (lufsImage tree) ([], (sectorSize, (count tree + 1) * entrySize)) =
      [] :: tree.names.map storedName := by
    have names := @stored_names_rows (lufsImage tree)
      ([], (sectorSize, (count tree + 1) * entrySize)) _ holds.left
      (by rw [List.length_cons, rows_length])
    rw [List.map_cons, rows_names] at names
    exact names
  have rootKept : (storedNames (lufsImage tree)
        ([], (sectorSize, (count tree + 1) * entrySize))).Nodup ∧
      storedNames (lufsImage tree) ([], (sectorSize, (count tree + 1) * entrySize)) =
        (dirTree (getEntriesFromDir tree) []).map Entry.name ↔
      ∀ name ∈ tree.names, KeepsName name := by
    rw [root, root_table os, List.map_cons, items_names, ← directory_kept_iff os]
    constructor
    · exact fun kept => ⟨(List.nodup_cons.mp kept.1).2, (List.cons.inj kept.2).2⟩
    · intro kept
      refine ⟨List.nodup_cons.mpr ⟨?_, kept.1⟩, congrArg ([] :: ·) kept.2⟩
      rw [kept.2]
      exact fun member => (names_os os [] member).nonempty rfl
  have belowKept : (∀ table ∈ tableSpans [] (tablesStart tree) tree,
      (storedNames (lufsImage tree) table).Nodup ∧ storedNames (lufsImage tree) table =
        (dirTree (getEntriesFromDir tree) table.1).map Entry.name) ↔
      ∀ found ∈ dirs [] tree, ∀ name ∈ found.2.names, KeepsName name := by
    apply forall_mem_iff (tables_hold under)
    intro table found member aligned
    rw [aligned.2, aligned.1, root_listed os found member, items_names]
    exact directory_kept_iff (dirs_os os found member)
  rw [every_name_iff KeepsName [], ← rootKept, ← belowKept]
  unfold NamesKept
  constructor
  · intro kept
    have all := kept order ordered
    rw [planned] at all
    exact List.forall_mem_cons.mp all
  · intro kept other otherOrdered
    rw [ordered] at otherOrdered
    rw [← Option.some.inj otherOrdered, planned]
    exact List.forall_mem_cons.mpr kept

end Kept

section Writer

/-- The writer either raises or keeps all names, exactly when the numbers do
not fit or each name fits its field. -/
theorem writer_keeps_names_iff {tree : Listing} (os : OsTree tree) {fuel : Nat}
    (enough : tree.depth + 2 ≤ fuel) :
    (makefs fuel tree = none ∨
        ∃ image, makefs fuel tree = some image ∧ NamesKept fuel tree image) ↔
      ¬ NumbersFit tree ∨ EveryName KeepsName tree := by
  by_cases fit : NumbersFit tree
  · have written : makefs fuel tree = some (lufsImage tree) := makefs_image os fit enough
    rw [written, ← layout_names_kept_iff os enough]
    constructor
    · rintro (raised | ⟨image, same, kept⟩)
      · cases raised
      · rw [Option.some.inj same]
        exact Or.inr kept
    · rintro (large | kept)
      · exact absurd fit large
      · exact Or.inr ⟨_, rfl, kept⟩
  · refine ⟨fun _ => Or.inl fit, fun _ => Or.inl ?_⟩
    rw [← Option.not_isSome_iff_eq_none, makefs_returns_iff os enough]
    exact fit

theorem writer_keeps_names_sample :
    (makefs 4 sampleTree = none ∨
        ∃ image, makefs 4 sampleTree = some image ∧ NamesKept 4 sampleTree image) ↔
      ¬ NumbersFit sampleTree ∨ EveryName KeepsName sampleTree :=
  writer_keeps_names_iff sample_tree_good.os (by decide)

def twins : Listing :=
  .file (List.replicate 33 'a') [] (.file (List.replicate 32 'a' ++ ['b']) [] .nil)

theorem twins_os : OsTree twins := by
  have one : OsName (List.replicate 33 'a') :=
    ⟨by decide, by decide, by decide, by decide, by decide⟩
  have two : OsName (List.replicate 32 'a' ++ ['b']) :=
    ⟨by decide, by decide, by decide, by decide, by decide⟩
  exact ⟨one, by decide, two, by decide, trivial⟩

/-- The twins are written without an error and are one name in the image. -/
theorem twins_conflated :
    OsTree twins ∧ makefs 2 twins = some (lufsImage twins) ∧
      storedNames (lufsImage twins) ([], (sectorSize, 3 * entrySize)) =
        [[], List.replicate 32 'a', List.replicate 32 'a'] ∧
      ¬ NamesKept 2 twins (lufsImage twins) := by
  have fit : NumbersFit twins := by
    refine ⟨by decide, ?_⟩
    exact ⟨by decide, by decide, by decide, by decide, by decide, by decide, trivial⟩
  have lost : ¬ KeepsName (List.replicate 33 'a') := by
    rw [← stored_name_iff (by decide)]
    decide
  have read : storedNames (lufsImage twins) ([], (sectorSize, 3 * entrySize)) =
      [[], List.replicate 32 'a', List.replicate 32 'a'] := by decide +kernel
  refine ⟨twins_os, makefs_image twins_os fit (by decide), read, ?_⟩
  rw [layout_names_kept_iff twins_os (by decide)]
  exact fun kept => lost kept.1

end Writer

end LumenOS.LufsNames
