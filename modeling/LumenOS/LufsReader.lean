import LumenOS.LufsLayout

/-!
# Reading the layout

A row is read back from its bytes and a table from its rows. The traversals of
`rdfs.py` then go through the layout as the listing does: a directory's rows
first, its subdirectories' tables on the way, and past the end of the root's
table nothing, because the counter is used up there.
-/

namespace LumenOS.LufsReader

open LumenOS.ByteMemory LumenOS.FileTree LumenOS.LufsModel LumenOS.LufsLayout

set_option autoImplicit false

section Bytes

def Holds (image : List Byte) (offset : Nat) (bytes : List Byte) : Prop :=
  ∃ front behind, image = front ++ bytes ++ behind ∧ front.length = offset

variable {image first second : List Byte} {offset : Nat}

theorem Holds.left (holds : Holds image offset (first ++ second)) : Holds image offset first := by
  obtain ⟨front, behind, split, length⟩ := holds
  exact ⟨front, second ++ behind, by rw [split]; simp only [List.append_assoc], length⟩

theorem Holds.right (holds : Holds image offset (first ++ second)) :
    Holds image (offset + first.length) second := by
  obtain ⟨front, behind, split, length⟩ := holds
  refine ⟨front ++ first, behind, by rw [split]; simp only [List.append_assoc], ?_⟩
  rw [List.length_append, length]

theorem Holds.read (holds : Holds image offset first) :
    readAt image offset first.length = first := by
  obtain ⟨front, behind, split, length⟩ := holds
  unfold readAt
  rw [split, List.append_assoc, ← length, List.drop_left, List.take_left]

theorem Holds.inner {inside : List Byte} {place : Nat} (holds : Holds image offset first)
    (within : Holds first place inside) : Holds image (offset + place) inside := by
  obtain ⟨front, behind, split, length⟩ := holds
  obtain ⟨before, after, parts, placed⟩ := within
  refine ⟨front ++ before, after ++ behind, ?_, ?_⟩
  · rw [split, parts]
    simp only [List.append_assoc]
  · rw [List.length_append, length, placed]

theorem padded_length {bytes : List Byte} {width : Nat} (short : bytes.length ≤ width) :
    (ljust width bytes).length = width := by
  unfold ljust
  rw [List.length_append, List.length_replicate]
  omega

theorem disk_holds {head body : List Byte} {dataAt : Nat}
    (before : (head ++ body).length ≤ dataAt) (contents : List Byte) :
    Holds (writeSectors (ljust dataAt (head ++ body) ++ contents).length
        (ljust dataAt (head ++ body) ++ contents)) 0 head ∧
      Holds (writeSectors (ljust dataAt (head ++ body) ++ contents).length
        (ljust dataAt (head ++ body) ++ contents)) head.length body ∧
      Holds (writeSectors (ljust dataAt (head ++ body) ++ contents).length
        (ljust dataAt (head ++ body) ++ contents)) dataAt contents := by
  obtain ⟨zeros, padded⟩ := write_sectors_pads (ljust dataAt (head ++ body) ++ contents).length
    (ljust dataAt (head ++ body) ++ contents) (Nat.le_refl _)
  have whole : Holds (writeSectors (ljust dataAt (head ++ body) ++ contents).length
      (ljust dataAt (head ++ body) ++ contents)) 0 (ljust dataAt (head ++ body) ++ contents) := by
    refine ⟨[], List.replicate zeros 0, ?_, rfl⟩
    rw [padded, List.nil_append]
  have behind := whole.right
  rw [padded_length before, Nat.zero_add] at behind
  have front := whole.left
  unfold ljust at front
  have table := front.left.right
  rw [Nat.zero_add] at table
  exact ⟨front.left.left, table, behind⟩

end Bytes

section Rows

structure Readable (row : TableEntry) : Prop where
  fits : RowFits row
  short : (Utf8.encode row.name).length ≤ 32
  noNul : Char.ofNat 0 ∉ row.name

theorem GoodName.readable {row : TableEntry} (good : GoodName row.name) (fits : RowFits row) :
    Readable row :=
  ⟨fits, good.short, good.noNul⟩

theorem rstrip_nul_padded (bytes : List Byte) (zeros : Nat) (clean : (0 : Byte) ∉ bytes) :
    rstripNul (bytes ++ List.replicate zeros 0) = bytes := by
  have padding : ∀ byte ∈ List.replicate zeros (0 : Byte), decide (byte = 0) = true := by
    intro byte member
    exact decide_eq_true (List.eq_of_mem_replicate member)
  have kept : bytes.reverse.dropWhile (· = 0) = bytes.reverse := by
    cases reversed : bytes.reverse with
    | nil => rfl
    | cons byte rest =>
        have member : byte ∈ bytes := by
          apply List.mem_reverse.mp
          rw [reversed]
          exact List.mem_cons_self
        apply List.dropWhile_cons_of_neg
        rw [decide_eq_true_eq]
        intro zero
        rw [zero] at member
        exact clean member
  unfold rstripNul
  rw [List.reverse_append, List.reverse_replicate, List.dropWhile_append_of_pos padding, kept,
    List.reverse_reverse]

theorem decode_field {width value : Nat} (small : value < 256 ^ width) :
    decodeLE (encodeLE width value) = value := by
  rw [decode_encode_le, Nat.mod_eq_of_lt small]

theorem drop_field {bytes field rest : List Byte} {offset width : Nat}
    (before : bytes.drop offset = field ++ rest) (length : field.length = width) :
    (bytes.drop offset).take width = field ∧ bytes.drop (offset + width) = rest := by
  rw [← List.drop_drop, before]
  exact ⟨List.take_left' length, List.drop_left' length⟩

/-- The name that comes back from the field a name is packed in. -/
def storedName (name : Text) : Text :=
  Utf8.decode (rstripNul (ljust 32 ((Utf8.encode name).take 32)))

theorem unpack_encode_row {row : TableEntry} (fits : RowFits row) :
    unpackEntry (encodeRow row) = { row with name := storedName row.name } := by
  obtain ⟨size, first, last, firstByte, lastByte⟩ := fits
  have nameLength : (ljust 32 ((Utf8.encode row.name).take 32)).length = 32 := by
    unfold ljust
    rw [List.length_append, List.length_replicate, List.length_take]
    omega
  have whole : (encodeRow row).drop 0 = ljust 32 ((Utf8.encode row.name).take 32) ++
      (encodeLE 4 row.size ++ ([if row.isfile then 1 else 0] ++ (encodeLE 4 row.span.startBlock ++
        (encodeLE 4 row.span.endBlock ++ (encodeLE 2 row.span.startByte ++
          (encodeLE 2 row.span.endByte ++ [])))))) := by
    unfold encodeRow
    simp only [List.drop_zero, List.append_assoc, List.append_nil]
  obtain ⟨nameField, at32⟩ := drop_field whole nameLength
  obtain ⟨sizeField, at36⟩ := drop_field at32 (encode_le_length 4 _)
  obtain ⟨kindField, at37⟩ := drop_field at36 List.length_singleton
  obtain ⟨firstField, at41⟩ := drop_field at37 (encode_le_length 4 _)
  obtain ⟨lastField, at45⟩ := drop_field at41 (encode_le_length 4 _)
  obtain ⟨firstByteField, at47⟩ := drop_field at45 (encode_le_length 2 _)
  obtain ⟨lastByteField, _⟩ := drop_field at47 (encode_le_length 2 _)
  have kind : (decodeLE [if row.isfile then (1 : Byte) else 0] != 0) = row.isfile := by
    cases row.isfile <;> rfl
  rw [List.drop_zero] at nameField
  unfold unpackEntry
  rw [nameField, sizeField, kindField, firstField, lastField, firstByteField, lastByteField, kind,
    decode_field size, decode_field first, decode_field last, decode_field firstByte,
    decode_field lastByte]
  rfl

theorem stored_name_short {name : Text} (short : (Utf8.encode name).length ≤ 32)
    (noNul : Char.ofNat 0 ∉ name) : storedName name = name := by
  have clean : (0 : Byte) ∉ Utf8.encode name := fun zero => noNul (Utf8.zero_mem_encode zero)
  unfold storedName ljust
  rw [List.take_of_length_le short, rstrip_nul_padded _ _ clean, Utf8.decode_encode]

theorem read_dir_table_encoded {image : List Byte} {offset : Nat} {table : List TableEntry}
    (holds : Holds image offset (encodeRows table)) :
    readDirTable image offset table.length = table.map fun row => unpackEntry (encodeRow row) := by
  induction table generalizing offset with
  | nil => rfl
  | cons row table ih =>
      have length : (encodeRow row).length = entrySize := encode_row_length row
      rw [encode_rows_cons] at holds
      have bytes := holds.left.read
      have behind := holds.right
      rw [length] at bytes behind
      rw [List.length_cons, readDirTable, bytes, if_neg (fun different => different length),
        ih behind, List.map_cons]

theorem read_dir_table_rows {image : List Byte} {offset : Nat} {table : List TableEntry}
    (readable : ∀ row ∈ table, Readable row) (holds : Holds image offset (encodeRows table)) :
    readDirTable image offset table.length = table := by
  have same : table.map (fun row => unpackEntry (encodeRow row)) = table.map id := by
    apply List.map_congr_left
    intro row member
    obtain ⟨fits, short, noNul⟩ := readable row member
    rw [unpack_encode_row fits, stored_name_short short noNul]
    rfl
  rw [read_dir_table_encoded holds, same, List.map_id]

end Rows

section Walks

variable {κ σ : Type}

/-- What a traversal does to a directory's rows and everything below, one visit
for each entry. -/
def visitAll (visitor : Visitor κ σ) (context : κ) : Nat → Nat → Listing → σ → Option σ
  | _, _, .nil, effect => some effect
  | tableAt, dataAt, .file name content rest, effect =>
      (visitor.visit context (fileRow name content dataAt) effect).bind fun effect =>
        visitAll visitor context tableAt (dataAt + content.length) rest effect
  | tableAt, dataAt, .dir name children rest, effect =>
      (visitor.visit context (dirRow name tableAt (count children)) effect).bind fun effect =>
        (visitAll visitor (visitor.child context (dirRow name tableAt (count children)))
          (tableAt + count children * entrySize) dataAt children effect).bind fun effect =>
        visitAll visitor context (tableAt + (count children + below children) * entrySize)
          (dataAt + (data children).length) rest effect

structure WholeTables (visitor : Visitor κ σ) : Prop where
  select : ∀ offset table, sectorSize < offset → visitor.select offset table = table
  descends : ∀ entries : Int, 0 < entries → visitor.descends entries = true

theorem dir_row_offset (name : Text) (tableAt : Nat) {entries : Nat} (positive : 0 < entries) :
    (dirRow name tableAt entries).childOffset = tableAt := by
  have span : (dirRow name tableAt entries).span = tableSpan tableAt (entries * entrySize) :=
    if_neg (Nat.ne_of_gt positive)
  unfold TableEntry.childOffset
  rw [span]
  exact Nat.div_add_mod' tableAt sectorSize

theorem dir_row_count (name : Text) (tableAt : Nat) {entries : Nat} (positive : 0 < entries) :
    (dirRow name tableAt entries).childCount = entries := by
  have offset := dir_row_offset name tableAt positive
  have span : (dirRow name tableAt entries).span = tableSpan tableAt (entries * entrySize) :=
    if_neg (Nat.ne_of_gt positive)
  have last : (tableSpan tableAt (entries * entrySize)).endBlock * sectorSize +
      (tableSpan tableAt (entries * entrySize)).endByte = tableAt + entries * entrySize - 1 :=
    Nat.div_add_mod' _ sectorSize
  unfold TableEntry.childCount
  rw [offset, span, last]
  unfold entrySize
  omega

theorem dir_row_has_table (name : Text) (tableAt : Nat) {entries : Nat} (positive : 0 < entries)
    (behind : sectorSize < tableAt) : (dirRow name tableAt entries).HasTable := by
  have offset := dir_row_offset name tableAt positive
  refine ⟨rfl, rfl, ?_⟩
  by_cases block : (dirRow name tableAt entries).span.startBlock = 0
  · apply Or.inr
    intro byte
    unfold TableEntry.childOffset at offset
    rw [block, byte, Nat.zero_mul] at offset
    omega
  · exact Or.inl block

theorem empty_row_no_table {name : Text} {tableAt : Nat} : ¬ (dirRow name tableAt 0).HasTable := by
  intro table
  exact table.2.2.elim (fun block => block rfl) (fun byte => byte rfl)

theorem file_row_no_table {name : Text} {content : List Byte} {dataAt : Nat} :
    ¬ (fileRow name content dataAt).HasTable :=
  fun table => Bool.noConfusion table.1

variable {visitor : Visitor κ σ} {recurse : Nat → Int → κ → Walk σ → Option (Walk σ)}
  {maxEntries : Nat} {context : κ} {entry : TableEntry} {rest : List TableEntry}
  {seen : List Text} {walk : Walk σ} {effect : σ}

theorem walk_rows_full (table : List TableEntry) (full : table = [] ∨ walk.handled ≥ maxEntries) :
    walkRows visitor recurse maxEntries context table seen walk = some walk := by
  cases table with
  | nil => rfl
  | cons entry table =>
      rcases full with nothing | full
      · cases nothing
      · rw [walkRows, if_pos full]

theorem walk_row_leaf (room : walk.handled < maxEntries) (named : entry.name ≠ [])
    (new : entry.name ∉ seen) (visited : visitor.visit context entry walk.effect = some effect)
    (leaf : ¬ entry.HasTable) :
    walkRows visitor recurse maxEntries context (entry :: rest) seen walk =
      walkRows visitor recurse maxEntries context rest (entry.name :: seen)
        { walk with handled := walk.handled + 1, effect := effect } := by
  rw [walkRows, if_neg (Nat.not_le_of_lt room), if_neg (fun skip => skip.elim named new), visited,
    Option.bind_some]
  dsimp only
  rw [if_neg (fun table => leaf table.1)]

theorem walk_row_table (room : walk.handled < maxEntries) (named : entry.name ≠ [])
    (new : entry.name ∉ seen) (visited : visitor.visit context entry walk.effect = some effect)
    (table : entry.HasTable) (unseen : entry.childOffset ∉ walk.visited)
    (descends : visitor.descends entry.childCount = true) :
    walkRows visitor recurse maxEntries context (entry :: rest) seen walk =
      (recurse entry.childOffset entry.childCount (visitor.child context entry)
        { visited := entry.childOffset :: walk.visited
          handled := walk.handled + 1
          effect := effect }).bind fun walk =>
        walkRows visitor recurse maxEntries context rest (entry.name :: seen) walk := by
  rw [walkRows, if_neg (Nat.not_le_of_lt room), if_neg (fun skip => skip.elim named new), visited,
    Option.bind_some]
  dsimp only
  rw [if_pos ⟨table, unseen⟩, if_pos descends]

theorem count_zero {listing : Listing} (empty : count listing = 0) : listing = .nil := by
  cases listing with
  | nil => rfl
  | file name content rest => exact absurd empty (Nat.succ_ne_zero _)
  | dir name children rest => exact absurd empty (Nat.succ_ne_zero _)

theorem holds_tables {image : List Byte} {tableAt dataAt : Nat} {name : Text}
    {children rest : Listing}
    (holds : Holds image tableAt (encodeRows (tables tableAt dataAt (.dir name children rest)))) :
    Holds image tableAt (encodeRows (rows (tableAt + count children * entrySize) dataAt children)) ∧
      Holds image (tableAt + count children * entrySize)
        (encodeRows (tables (tableAt + count children * entrySize) dataAt children)) ∧
      Holds image (tableAt + (count children + below children) * entrySize)
        (encodeRows (tables (tableAt + (count children + below children) * entrySize)
          (dataAt + (data children).length) rest)) := by
  unfold tables at holds
  rw [encode_rows_append] at holds
  have after := holds.right
  have under := holds.left
  rw [encode_rows_length, List.length_append, rows_length, tables_length] at after
  rw [encode_rows_append] at under
  have inside := under.right
  rw [encode_rows_length, rows_length] at inside
  exact ⟨under.left, inside, after⟩

theorem walk_table_rows {image : List Byte} {fuel tableAt dataAt : Nat} {listing : Listing}
    (whole : WholeTables visitor)
    (readable : ∀ row ∈ rows tableAt dataAt listing, Readable row) (offset : Nat)
    (after : sectorSize < offset)
    (holds : Holds image offset (encodeRows (rows tableAt dataAt listing))) :
    walkTable visitor image maxEntries (fuel + 1) offset (count listing) context walk =
      walkRows visitor (walkTable visitor image maxEntries fuel) maxEntries context
        (rows tableAt dataAt listing) [] walk := by
  have table := read_dir_table_rows readable holds
  rw [rows_length] at table
  rw [walkTable, Int.toNat_natCast, table, whole.select offset _ after]

/-- What the walk along a listing's rows relies on: the tables below it stand
in the image, the counter reaches its limit with the last row if other rows
follow, and no name or table of the listing has been met. -/
structure Ready (image : List Byte) (maxEntries fuel tableAt dataAt : Nat) (listing : Listing)
    (extra : List TableEntry) (seen : List Text) (walk : Walk σ) : Prop where
  behind : sectorSize < tableAt
  readable : ∀ row ∈ tables tableAt dataAt listing, Readable row
  holds : Holds image tableAt (encodeRows (tables tableAt dataAt listing))
  enough : listing.depth ≤ fuel
  room : walk.handled + (count listing + below listing) ≤ maxEntries
  last : extra = [] ∨ walk.handled + (count listing + below listing) ≥ maxEntries
  new : ∀ name ∈ listing.names, name ∉ seen
  before : ∀ offset ∈ walk.visited, offset < tableAt

theorem names_new {name : Text} {rest : Listing} (ascending : ∀ other ∈ rest.names, name < other)
    (new : ∀ other ∈ name :: rest.names, other ∉ seen) :
    ∀ other ∈ rest.names, other ∉ name :: seen := by
  intro other member
  apply List.not_mem_cons_of_ne_of_not_mem
  · intro same
    rw [same] at member
    exact OsTree.distinct ascending member
  · exact new other (List.mem_cons_of_mem name member)

section Steps

variable {image : List Byte} {fuel tableAt dataAt : Nat} {name : Text} {content : List Byte}
  {children rest : Listing} {extra : List TableEntry}

theorem Ready.file
    (ready : Ready image maxEntries fuel tableAt dataAt (.file name content rest) extra seen walk)
    (ascending : ∀ other ∈ rest.names, name < other) (effect : σ) :
    Ready image maxEntries fuel tableAt (dataAt + content.length) rest extra (name :: seen)
      { walk with handled := walk.handled + 1, effect := effect } := by
  obtain ⟨behind, readable, holds, enough, room, last, new, before⟩ := ready
  unfold count below at room last
  refine ⟨behind, readable, holds, enough, ?_, last.imp id fun full => ?_,
    names_new ascending new, before⟩
  · dsimp only
    omega
  · dsimp only
    omega

theorem Ready.inner
    (ready : Ready image maxEntries (fuel + 1) tableAt dataAt (.dir name children rest) extra seen
      walk) (effect : σ) (positive : 0 < count children) :
    Ready image maxEntries fuel (tableAt + count children * entrySize) dataAt children [] []
      { visited := tableAt :: walk.visited, handled := walk.handled + 1, effect := effect } := by
  obtain ⟨_, innerHolds, _⟩ := holds_tables ready.holds
  obtain ⟨behind, readable, _, enough, room, _, _, before⟩ := ready
  unfold tables at readable
  unfold count below at room
  unfold Listing.depth at enough
  constructor
  · omega
  · exact fun row member =>
      readable row (List.mem_append_left _ (List.mem_append_right _ member))
  · exact innerHolds
  · omega
  · dsimp only
    omega
  · exact Or.inl rfl
  · exact fun _ _ => List.not_mem_nil
  · intro other member
    rcases List.mem_cons.mp member with rfl | old
    · unfold entrySize
      omega
    · exact Nat.lt_add_right _ (before other old)

/-- Whatever the rows below did, the rest is ready when they used up their
numbers and their offsets. -/
theorem Ready.later
    (ready : Ready image maxEntries fuel tableAt dataAt (.dir name children rest) extra seen walk)
    (ascending : ∀ other ∈ rest.names, name < other) (next : Walk σ)
    (handled : next.handled = walk.handled + 1 + (count children + below children))
    (before : ∀ offset ∈ next.visited,
      offset < tableAt + (count children + below children) * entrySize) :
    Ready image maxEntries fuel (tableAt + (count children + below children) * entrySize)
      (dataAt + (data children).length) rest extra (name :: seen) next := by
  obtain ⟨_, _, restHolds⟩ := holds_tables ready.holds
  obtain ⟨behind, readable, _, enough, room, last, new, _⟩ := ready
  unfold tables at readable
  unfold count below at room last
  unfold Listing.depth at enough
  constructor
  · omega
  · exact fun row member => readable row (List.mem_append_right _ member)
  · exact restHolds
  · omega
  · omega
  · exact last.imp id fun full => by omega
  · exact names_new ascending new
  · exact before

theorem Ready.room_left
    (ready : Ready image maxEntries fuel tableAt dataAt (.dir name children rest) extra seen walk) :
    walk.handled < maxEntries := by
  have room := ready.room
  unfold count at room
  omega

/-- The row of a directory that is not empty: its own table, then the rows behind it. -/
theorem Ready.walk_dir
    (ready : Ready image maxEntries (fuel + 1) tableAt dataAt (.dir name children rest) extra seen
      walk) (whole : WholeTables visitor) (named : name ≠ []) (positive : 0 < count children)
    (visited : visitor.visit context (dirRow name tableAt (count children)) walk.effect =
      some effect) :
    walkRows visitor (walkTable visitor image maxEntries (fuel + 1)) maxEntries context
        (rows tableAt dataAt (.dir name children rest) ++ extra) seen walk =
      (walkRows visitor (walkTable visitor image maxEntries fuel) maxEntries
        (visitor.child context (dirRow name tableAt (count children)))
        (rows (tableAt + count children * entrySize) dataAt children) []
        { visited := tableAt :: walk.visited, handled := walk.handled + 1, effect := effect }).bind
        (walkRows visitor (walkTable visitor image maxEntries (fuel + 1)) maxEntries context
          (rows (tableAt + (count children + below children) * entrySize)
            (dataAt + (data children).length) rest ++ extra) (name :: seen)) := by
  have offset := dir_row_offset name tableAt positive
  have entries := dir_row_count name tableAt positive
  have descends :
      visitor.descends (dirRow name tableAt (count children)).childCount = true := by
    rw [entries]
    exact whole.descends _ (Int.natCast_pos.mpr positive)
  have unseen : (dirRow name tableAt (count children)).childOffset ∉ walk.visited := by
    rw [offset]
    exact fun member => Nat.lt_irrefl _ (ready.before tableAt member)
  have ownReadable : ∀ row ∈ rows (tableAt + count children * entrySize) dataAt children,
      Readable row := fun row member =>
    ready.readable row (List.mem_append_left _ (List.mem_append_left _ member))
  have newName := ready.new name List.mem_cons_self
  obtain ⟨ownHolds, _, _⟩ := holds_tables ready.holds
  rw [rows, List.cons_append, walk_row_table ready.room_left named newName visited
    (dir_row_has_table name tableAt positive ready.behind) unseen descends, offset, entries,
    walk_table_rows whole ownReadable tableAt ready.behind ownHolds]
  rfl

end Steps

/-- The rows of a listing and of everything below it have been walked with this
effect: the counter grew by their number, and every table met begins before
their end. -/
def Walked (visitor : Visitor κ σ) (image : List Byte) (maxEntries fuel : Nat) (context : κ)
    (tableAt dataAt : Nat) (listing : Listing) (extra : List TableEntry) (seen : List Text)
    (walk : Walk σ) (effect : σ) : Prop :=
  ∃ visited,
    walkRows visitor (walkTable visitor image maxEntries fuel) maxEntries context
        (rows tableAt dataAt listing ++ extra) seen walk =
      some { visited := visited
             handled := walk.handled + (count listing + below listing)
             effect := effect } ∧
    ∀ offset ∈ visited, offset < tableAt + below listing * entrySize

section Walked

variable {image : List Byte} {fuel tableAt dataAt : Nat} {name : Text} {content : List Byte}
  {children rest : Listing} {extra : List TableEntry}

theorem Ready.walked_nil
    (ready : Ready image maxEntries fuel tableAt dataAt .nil extra seen walk) :
    Walked visitor image maxEntries fuel context tableAt dataAt .nil extra seen walk
      walk.effect := by
  refine ⟨walk.visited, ?_, ?_⟩
  · change walkRows _ _ _ _ extra seen walk = _
    rw [walk_rows_full extra ready.last]
    rfl
  · unfold below
    rw [Nat.zero_mul]
    exact ready.before

theorem Ready.walked_file {step : σ}
    (ready : Ready image maxEntries fuel tableAt dataAt (.file name content rest) extra seen walk)
    (named : name ≠ [])
    (visited : visitor.visit context (fileRow name content dataAt) walk.effect = some step)
    (later : Walked visitor image maxEntries fuel context tableAt (dataAt + content.length) rest
      extra (name :: seen) { walk with handled := walk.handled + 1, effect := step } effect) :
    Walked visitor image maxEntries fuel context tableAt dataAt (.file name content rest) extra
      seen walk effect := by
  obtain ⟨final, walked, bounded⟩ := later
  have room := ready.room
  unfold count at room
  refine ⟨final, ?_, bounded⟩
  rw [rows, List.cons_append, walk_row_leaf (by omega) named (ready.new name List.mem_cons_self)
    visited file_row_no_table]
  exact walked.trans (congrArg some (congrArg (Walk.mk final · effect)
    (by dsimp only [count, below]; omega)))

/-- However the rows of a directory have been walked, those behind it end the walk. -/
theorem walked_dir {next : Walk σ}
    (here : walkRows visitor (walkTable visitor image maxEntries fuel) maxEntries context
        (rows tableAt dataAt (.dir name children rest) ++ extra) seen walk =
      walkRows visitor (walkTable visitor image maxEntries fuel) maxEntries context
        (rows (tableAt + (count children + below children) * entrySize)
          (dataAt + (data children).length) rest ++ extra) (name :: seen) next)
    (handled : next.handled = walk.handled + 1 + (count children + below children))
    (later : Walked visitor image maxEntries fuel context
      (tableAt + (count children + below children) * entrySize)
      (dataAt + (data children).length) rest extra (name :: seen) next effect) :
    Walked visitor image maxEntries fuel context tableAt dataAt (.dir name children rest) extra
      seen walk effect := by
  obtain ⟨final, walked, bounded⟩ := later
  have total : next.handled + (count rest + below rest) =
      walk.handled + (count (.dir name children rest) + below (.dir name children rest)) := by
    dsimp only [count, below]
    omega
  have restEnd : tableAt + below (.dir name children rest) * entrySize =
      tableAt + (count children + below children) * entrySize + below rest * entrySize := by
    rw [below, Nat.add_mul, ← Nat.add_assoc]
  refine ⟨final, ?_, ?_⟩
  · rw [here, walked, total]
  · rwa [restEnd]

end Walked

/-- Rows of a directory and of everything below are visited once each, in the
order of the listing. -/
theorem walk_listing {image : List Byte} {listing : Listing} {fuel tableAt dataAt : Nat}
    {extra : List TableEntry} (whole : WholeTables visitor) (tree : OsTree listing)
    (ready : Ready image maxEntries fuel tableAt dataAt listing extra seen walk)
    (visits : visitAll visitor context tableAt dataAt listing walk.effect = some effect) :
    Walked visitor image maxEntries fuel context tableAt dataAt listing extra seen walk
      effect := by
  induction listing generalizing fuel context tableAt dataAt extra seen walk effect with
  | nil =>
      obtain rfl : walk.effect = effect := Option.some.inj visits
      exact ready.walked_nil
  | file name content rest ih =>
      obtain ⟨named, ascending, later⟩ := tree
      obtain ⟨step, visited, onward⟩ := Option.bind_eq_some_iff.mp visits
      exact ready.walked_file named.nonempty visited (ih later (ready.file ascending step) onward)
  | dir name children rest ihChildren ih =>
      obtain ⟨named, ascending, inner, later⟩ := tree
      obtain ⟨step, visited, following⟩ := Option.bind_eq_some_iff.mp visits
      obtain ⟨under, inside, onward⟩ := Option.bind_eq_some_iff.mp following
      by_cases empty : count children = 0
      · have nothing := count_zero empty
        subst nothing
        have same : step = under := Option.some.inj inside
        have restReady := ready.later ascending
          { walk with handled := walk.handled + 1, effect := under } rfl
          (fun offset member => Nat.lt_add_right _ (ready.before offset member))
        refine walked_dir ?_ rfl (ih later restReady onward)
        rw [rows, List.cons_append, walk_row_leaf ready.room_left named.nonempty
          (ready.new name List.mem_cons_self) visited empty_row_no_table, same]
        rfl
      · have positive : 0 < count children := Nat.pos_of_ne_zero empty
        have deep := ready.enough
        unfold Listing.depth at deep
        obtain ⟨less, rfl⟩ : ∃ less, fuel = less + 1 := ⟨fuel - 1, by omega⟩
        obtain ⟨reached, innerWalked, innerBounded⟩ :=
          ihChildren inner (ready.inner step positive) inside
        rw [Nat.add_assoc, ← Nat.add_mul] at innerBounded
        have restReady := ready.later ascending
          { visited := reached
            handled := walk.handled + 1 + (count children + below children)
            effect := under } rfl innerBounded
        refine walked_dir ?_ rfl (ih later restReady onward)
        rw [List.append_nil] at innerWalked
        rw [ready.walk_dir whole named.nonempty positive visited, innerWalked]
        rfl

end Walks

end LumenOS.LufsReader
