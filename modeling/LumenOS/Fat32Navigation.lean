import LumenOS.DirectoryTree
import LumenOS.Fat32Records
import LumenOS.StepRuns

/-!
# Walking a FAT32 directory tree with `fat32_find`

A volume keeps a directory tree when its directories list the tree's entries
and every subdirectory begins with the entries for itself and for the
directory around it, which stores cluster 0 for the root. Handles stand for
places in that tree. A step keeps this as long as the first record of the name
is in use, is no label and leads to a cluster. `fat32_find` looks at none of
these: not at the mark of a deleted record, which a `char` never equals, not at
a label's attribute, not at whether the handle is a directory's, and not at a
cluster number of zero.
-/

namespace LumenOS.Fat32Navigation

open LumenOS.ByteMemory LumenOS.StringModel LumenOS.Fat32Model LumenOS.Fat32Delivery
open LumenOS.Fat32Search LumenOS.Fat32Slice LumenOS.Fat32Volume LumenOS.Fat32Records
open LumenOS.DirectoryTree LumenOS.StepRuns

set_option autoImplicit false

abbrev Name83 := {bytes : List Byte // bytes.length = 11}

def dotName : Name83 := ⟨0x2E :: List.replicate 10 0x20, rfl⟩

def dotdotName : Name83 := ⟨0x2E :: 0x2E :: List.replicate 9 0x20, rfl⟩

section Holding

variable (disk : Nat → Byte) (fs : Fs)

def liveRecords (clusters : List Nat) : List Record :=
  (directoryRecords disk fs clusters).filter fun entry => entry.IsLive

def IsDirectory (entry : Record) : Prop := entry.attr &&& 0x10 ≠ 0

/-- Nothing is stored for an empty file. -/
def KeepsFile (first size : Nat) (content : List Byte) : Prop :=
  (first = 0 ∧ size = 0 ∧ content = []) ∨
    ∃ clusters, StoredChain disk fs first clusters ∧
      size ≤ clusters.length * fs.bytesPerCluster ∧
      content = (chainContent disk fs clusters).take size

structure LeadsTo (entry : Record) (name : Name83) (first : Nat) : Prop where
  name : entry.name = name
  directory : IsDirectory entry
  first : entry.firstCluster = first

/-- A chain that begins with the entries a subdirectory has for itself and for
the directory around it, for which it stores `up`. -/
structure Subdirectory (up first : Nat) (clusters : List Nat) (under : List Record) : Prop where
  chain : StoredChain disk fs first clusters
  begins : ∃ dot dotdot, liveRecords disk fs clusters = dot :: dotdot :: under ∧
    LeadsTo dot dotName first ∧ LeadsTo dotdot dotdotName up

/-- The records list the entries of the tree; `back` is what the
subdirectories among them store for the directory around them. -/
def Lists : Tree Name83 (List Byte) → Nat → List Record → Prop
  | .nil, _, [] => True
  | .file name content rest, back, entry :: others =>
      entry.name = name ∧
        (¬ IsDirectory entry ∧ KeepsFile disk fs entry.firstCluster entry.size content) ∧
        Lists rest back others
  | .dir name children rest, back, entry :: others =>
      entry.name = name ∧
        (IsDirectory entry ∧ ∃ clusters under,
          Subdirectory disk fs back entry.firstCluster clusters under ∧
          Lists children entry.firstCluster under) ∧
        Lists rest back others
  | _, _, _ => False

def Keeps (back : Nat) (entry : Record) : Node Name83 (List Byte) → Prop
  | .file content =>
      ¬ IsDirectory entry ∧ KeepsFile disk fs entry.firstCluster entry.size content
  | .dir children =>
      IsDirectory entry ∧ ∃ clusters under,
        Subdirectory disk fs back entry.firstCluster clusters under ∧
        Lists disk fs children entry.firstCluster under

/-- The volume keeps the tree; for the root its subdirectories store 0. -/
def HoldsTree (tree : Tree Name83 (List Byte)) : Prop :=
  ∃ clusters, StoredChain disk fs fs.rootCluster clusters ∧
    Lists disk fs tree 0 (liveRecords disk fs clusters)

/-- What is stored for a directory inside the ones directly below it. -/
def backLink (above : List (Tree Name83 (List Byte))) (first : Nat) : Nat :=
  if above = [] then 0 else first

def Stands : Tree Name83 (List Byte) → List (Tree Name83 (List Byte)) → Nat → Prop
  | here, [], first => first = fs.rootCluster ∧ HoldsTree disk fs here
  | here, up :: above, first => ∃ outer clusters under, Stands up above outer ∧
      Subdirectory disk fs (backLink above outer) first clusters under ∧
      Lists disk fs here first under

def Denotes : Spot Name83 (List Byte) → File → Prop
  | .file content, handle =>
      handle.isDir = false ∧ KeepsFile disk fs handle.firstCluster handle.size content
  | .dir here above, handle =>
      handle.isDir = true ∧ Stands disk fs here above handle.firstCluster

/-- What a find meets against what a step reaches: nothing on both sides, or a
record and a place that its handle denotes. -/
def Meets : Option Record → Option (Spot Name83 (List Byte)) → Prop :=
  Option.Rel fun entry spot => Denotes disk fs spot (recordFile entry)

/-- The first record of the name in the handle's chain, pieces of long names
aside, is one in use, no label, and no directory entry that stores cluster 0,
and the handle is a directory's. -/
def Sound (handle : File) (name : Name83) : Prop :=
  ∃ clusters, StoredChain disk fs handle.firstCluster clusters ∧
    ∀ entry, (directoryRecords disk fs clusters).find? (Matches name) = some entry →
      handle.isDir = true ∧ entry.IsLive ∧ (IsDirectory entry → entry.firstCluster ≠ 0)

end Holding

section Finding

variable {disk : Nat → Byte} {fs : Fs}

theorem first_live (entries : List Record) (wanted live : Record → Bool)
    (first : ∀ entry, entries.find? wanted = some entry → live entry = true) :
    entries.find? wanted = entries.find? fun entry => live entry && wanted entry := by
  induction entries with
  | nil => rfl
  | cons entry entries ih =>
      rw [List.find?_cons] at first
      rw [List.find?_cons, List.find?_cons]
      cases met : wanted entry with
      | true =>
          rw [met] at first
          rw [first entry rfl]
          rfl
      | false =>
          rw [met] at first
          rw [ih first, Bool.and_false]

theorem live_no_piece {entry : Record} (live : entry.IsLive) : entry.attr ≠ 0x0F := by
  intro piece
  have unlabelled := live.2
  rw [piece] at unlabelled
  exact absurd unlabelled (by decide)

theorem find_live {clusters : List Nat} {name : Name83}
    (live : ∀ entry, (directoryRecords disk fs clusters).find? (Matches name) = some entry →
      entry.IsLive) :
    (directoryRecords disk fs clusters).find? (Matches name) =
      (liveRecords disk fs clusters).find? fun entry => entry.name = name.val := by
  have first := first_live (directoryRecords disk fs clusters) (Matches name)
    (fun entry => decide entry.IsLive) fun entry found => decide_eq_true (live entry found)
  rw [first, liveRecords, List.find?_filter]
  apply congrArg fun wanted => List.find? wanted (directoryRecords disk fs clusters)
  funext entry
  unfold Matches
  by_cases used : entry.IsLive
  · simp [used, live_no_piece used]
  · simp [used]

theorem listed_cons {back : Nat} {entry : Record} {others : List Record} {stored name : Name83}
    {node : Node Name83 (List Byte)} {rest : Option (Node Name83 (List Byte))}
    (named : entry.name = stored) (keeps : Keeps disk fs back entry node)
    (later : Option.Rel (Keeps disk fs back)
      (others.find? fun entry => entry.name = name.val) rest) :
    Option.Rel (Keeps disk fs back) ((entry :: others).find? fun entry => entry.name = name.val)
      (if stored = name then some node else rest) := by
  rw [List.find?_cons]
  by_cases same : stored = name
  · rw [if_pos same, named, same, decide_eq_true rfl]
    exact .some keeps
  · have other : entry.name ≠ name.val := fun equal =>
      same (Subtype.ext (named.symm.trans equal))
    rw [if_neg same, decide_eq_false other]
    exact later

theorem lists_find {tree : Tree Name83 (List Byte)} {back : Nat} {entries : List Record}
    (lists : Lists disk fs tree back entries) (name : Name83) :
    Option.Rel (Keeps disk fs back) (entries.find? fun entry => entry.name = name.val)
      (tree.find? name) := by
  induction tree generalizing entries with
  | nil =>
      cases entries with
      | nil => exact .none
      | cons entry others => cases lists
  | file stored content rest ih =>
      cases entries with
      | nil => cases lists
      | cons entry others => exact listed_cons lists.1 lists.2.1 (ih lists.2.2)
  | dir stored children rest _ ih =>
      cases entries with
      | nil => cases lists
      | cons entry others => exact listed_cons lists.1 lists.2.1 (ih lists.2.2)

theorem record_is_dir (entry : Record) : (recordFile entry).isDir = true ↔ IsDirectory entry :=
  bne_iff_ne

theorem record_is_file {entry : Record} (plain : ¬ IsDirectory entry) :
    (recordFile entry).isDir = false :=
  Bool.eq_false_iff.mpr fun flagged => plain ((record_is_dir entry).mp flagged)

theorem enter_denotes {here : Tree Name83 (List Byte)} {above : List (Tree Name83 (List Byte))}
    {first : Nat} {entry : Record} {node : Node Name83 (List Byte)}
    (stands : Stands disk fs here above first)
    (keeps : Keeps disk fs (backLink above first) entry node) :
    Denotes disk fs (node.enter here above) (recordFile entry) := by
  cases node with
  | file content => exact ⟨record_is_file keeps.1, keeps.2⟩
  | dir children =>
      obtain ⟨directory, clusters, under, begins, lists⟩ := keeps
      exact ⟨(record_is_dir entry).mpr directory, first, clusters, under, stands, begins, lists⟩

theorem child_meets {here : Tree Name83 (List Byte)} {above : List (Tree Name83 (List Byte))}
    {first : Nat} {entries : List Record} (stands : Stands disk fs here above first)
    (lists : Lists disk fs here (backLink above first) entries) (name : Name83) :
    Meets disk fs (entries.find? fun entry => entry.name = name.val)
      ((here.find? name).map (Node.enter here above)) := by
  have listed := lists_find lists name
  generalize (entries.find? fun entry => entry.name = name.val) = found at listed ⊢
  generalize here.find? name = node at listed ⊢
  cases listed with
  | none => exact .none
  | some keeps => exact .some (enter_denotes stands keeps)

/-- The entry for the directory itself is met first, the one for the directory
around it next, and then those of the tree. -/
theorem find_begins {dot dotdot : Record} {under : List Record} {first up : Nat}
    (self : LeadsTo dot dotName first) (parent : LeadsTo dotdot dotdotName up) (name : Name83) :
    ((dot :: dotdot :: under).find? fun entry => entry.name = name.val) =
      if name = dotName then some dot
      else if name = dotdotName then some dotdot
      else under.find? fun entry => entry.name = name.val := by
  have equal : ∀ stored : Name83, decide (stored.val = name.val) = decide (name = stored) :=
    fun stored => decide_eq_decide.mpr
      ⟨fun same => Subtype.ext same.symm, fun same => congrArg Subtype.val same.symm⟩
  rw [List.find?_cons, List.find?_cons, self.name, parent.name, equal, equal]
  by_cases isSelf : name = dotName
  · rw [decide_eq_true isSelf, if_pos isSelf]
  · rw [decide_eq_false isSelf, if_neg isSelf]
    by_cases isParent : name = dotdotName
    · rw [decide_eq_true isParent, if_pos isParent]
    · rw [decide_eq_false isParent, if_neg isParent]

theorem leads_directory {entry : Record} {name : Name83} {first : Nat}
    (leads : LeadsTo entry name first) : (recordFile entry).isDir = true :=
  (record_is_dir entry).mpr leads.directory

/-- A find in a directory's chain and a step of the tree go together. -/
theorem directory_meets {here : Tree Name83 (List Byte)} {above : List (Tree Name83 (List Byte))}
    {first : Nat} {clusters : List Nat} (stands : Stands disk fs here above first)
    (chain : StoredChain disk fs first clusters) (name : Name83)
    (stored : ∀ entry, ((liveRecords disk fs clusters).find? fun entry => entry.name = name.val) =
      some entry → IsDirectory entry → entry.firstCluster ≠ 0) :
    Meets disk fs ((liveRecords disk fs clusters).find? fun entry => entry.name = name.val)
      ((Spot.dir here above).step dotName dotdotName name) := by
  cases above with
  | nil =>
      have place := stands
      obtain ⟨rfl, others, whole, lists⟩ := place
      rw [stored_chain_unique chain whole, step_root]
      exact child_meets stands lists name
  | cons up above =>
      have place := stands
      obtain ⟨outer, others, under, around, begins, lists⟩ := place
      obtain ⟨dot, dotdot, listed, self, parent⟩ := begins.begins
      rw [stored_chain_unique chain begins.chain, listed, find_begins self parent] at stored ⊢
      by_cases isSelf : name = dotName
      · rw [if_pos isSelf, isSelf, step_self]
        refine .some ⟨leads_directory self, ?_⟩
        change Stands disk fs here (up :: above) dot.firstCluster
        rwa [self.first]
      · rw [if_neg isSelf] at stored ⊢
        by_cases isParent : name = dotdotName
        · rw [if_pos isParent] at stored ⊢
          -- The root is stored as cluster 0, where no chain starts.
          have below : above ≠ [] := by
            intro root
            apply stored dotdot rfl parent.directory
            rw [parent.first, backLink, if_pos root]
          rw [isParent, step_parent (by decide)]
          refine .some ⟨leads_directory parent, ?_⟩
          change Stands disk fs up above dotdot.firstCluster
          rwa [parent.first, backLink, if_neg below]
        · rw [if_neg isParent, step_child isSelf isParent]
          exact child_meets stands lists name

/-- A find from any place and a step of the tree go together; a sound find meets no record in a
file. -/
theorem spot_meets {spot : Spot Name83 (List Byte)} {handle : File} {clusters : List Nat}
    {name : Name83} (denotes : Denotes disk fs spot handle)
    (chain : StoredChain disk fs handle.firstCluster clusters)
    (first : ∀ entry, ((liveRecords disk fs clusters).find? fun entry => entry.name = name.val) =
      some entry → handle.isDir = true ∧ (IsDirectory entry → entry.firstCluster ≠ 0)) :
    Meets disk fs ((liveRecords disk fs clusters).find? fun entry => entry.name = name.val)
      (spot.step dotName dotdotName name) := by
  cases spot with
  | file content =>
      cases found : (liveRecords disk fs clusters).find? fun entry => entry.name = name.val with
      | none => exact .none
      | some entry =>
          have directory := (first entry found).1
          rw [denotes.1] at directory
          cases directory
  | dir here above =>
      exact directory_meets denotes.2 chain name fun entry found => (first entry found).2

end Finding

section Handles

variable {disk : Nat → Byte} {fs : Fs} (sector buf : Nat)

def findCode (named : Bool) : Int := if named then 0 else -1

theorem find_of_map {call : Except Stop (Int × Option File × Memory)} {code : Int}
    {out : Option File}
    (same : call.map (fun result => (result.1, result.2.1)) = .ok (code, out)) :
    ∃ final, call = .ok (code, out, final) := by
  cases call with
  | error stop => cases same
  | ok result =>
      cases same
      exact ⟨result.2.2, rfl⟩

/-- More rounds than a chain can have clusters end every find along one. -/
theorem find_returns (geometry : SmallClusters fs) {fuel : Nat} (enough : 2 ^ 28 ≤ fuel)
    {handle : File} {clusters : List Nat}
    (chain : StoredChain disk fs handle.firstCluster clusters) (name : Name83)
    (memory : Memory) :
    ∃ final, fat32Find (deliverSectors disk) fs sector buf fuel handle name memory =
      match (directoryRecords disk fs clusters).find? (Matches name) with
      | some entry => .ok (0, some (recordFile entry), final)
      | none => .ok (-1, none, final) := by
  have rounds := Nat.lt_of_lt_of_le (stored_chain_short chain) enough
  have ended := find_in_chain name.property geometry sector buf handle chain rounds memory
  cases found : (directoryRecords disk fs clusters).find? (Matches name) with
  | none =>
      rw [found] at ended
      exact find_of_map ended
  | some entry =>
      rw [found] at ended
      exact find_of_map ended

/-- A sound find returns what the tree says, and its handle is for what the
name stands for; where it fails the handle is left alone. -/
theorem find_denotes (geometry : SmallClusters fs) {fuel : Nat} (enough : 2 ^ 28 ≤ fuel)
    {spot : Spot Name83 (List Byte)} {handle : File} {name : Name83}
    (denotes : Denotes disk fs spot handle) (sound : Sound disk fs handle name)
    (memory : Memory) :
    ∃ out final,
      fat32Find (deliverSectors disk) fs sector buf fuel handle name memory =
        .ok (findCode (spot.step dotName dotdotName name).isSome, out, final) ∧
      Denotes disk fs ((spot.step dotName dotdotName name).getD spot) (out.getD handle) := by
  obtain ⟨clusters, chain, first⟩ := sound
  obtain ⟨final, returned⟩ := find_returns sector buf geometry enough chain name memory
  have live := find_live fun entry found => (first entry found).2.1
  rw [live] at first returned
  have meets := spot_meets denotes chain fun entry found =>
    ⟨(first entry found).1, (first entry found).2.2⟩
  generalize ((liveRecords disk fs clusters).find? fun entry => entry.name = name.val) = found
    at returned meets
  generalize spot.step dotName dotdotName name = next at meets ⊢
  cases meets with
  | none => exact ⟨none, final, returned, denotes⟩
  | @some entry next stands => exact ⟨some (recordFile entry), final, returned, stands⟩

/-- A slice of the front part that holds it is a slice of the whole. -/
theorem slice_of_front (bytes : List Byte) {size offset r : Nat} (inside : offset + r ≤ size) :
    ((bytes.take size).drop offset).take r = (bytes.drop offset).take r := by
  rw [List.drop_take, List.take_take, Nat.min_eq_left (by omega)]

theorem read_kept (mounted : Mounted disk fs) (positive : 1 ≤ fs.sectorsPerCluster)
    (small : fs.sectorsPerCluster ≤ 8) {handle : File} {content : List Byte}
    (keeps : KeepsFile disk fs handle.firstCluster handle.size content) (offset size out : Nat)
    (word : offset + size < 2 ^ 32) (memory : Memory) (away : OffBuffers sector buf out size) :
    let r := if offset ≥ content.length then 0 else min size (content.length - offset)
    ∃ needed final,
      (∀ fuel, needed ≤ fuel →
        fat32Read (deliverSectors disk) fs sector buf fuel handle offset size out memory =
          .ok (r, final)) ∧
      Copied sector buf memory final out r ((content.drop offset).take r) := by
  intro r
  rcases keeps with ⟨_, empty, rfl⟩ | ⟨clusters, chain, holds, rfl⟩
  · have nothing : r = 0 := if_pos (Nat.zero_le offset)
    rw [nothing]
    refine ⟨0, memory, ?_, rfl, fun _ _ _ _ => rfl⟩
    intro fuel _
    apply if_pos
    rw [empty]
    exact Nat.zero_le offset
  · have bytes := mounted_cluster_bytes mounted small
    have length : ((chainContent disk fs clusters).take handle.size).length = handle.size := by
      rw [List.length_take, chain_content_length, ← bytes]
      exact Nat.min_eq_left holds
    have same : r = if offset ≥ handle.size then 0 else min size (handle.size - offset) := by
      rw [← length]
    have slice : ((((chainContent disk fs clusters).take handle.size).drop offset).take r) =
        ((chainContent disk fs clusters).drop offset).take r := by
      by_cases beyond : offset ≥ handle.size
      · rw [same, if_pos beyond, List.take_zero, List.take_zero]
      · apply slice_of_front
        rw [same, if_neg beyond]
        omega
    rw [slice, same]
    exact read_copies sector buf mounted positive small handle clusters chain holds offset size out
      word memory away

end Handles

section Walking

variable (disk : Nat → Byte) (fs : Fs) (sector buf fuel : Nat)

/-- A caller that looks one name up after the other: its handle, the memory
and what the finds so far returned. -/
structure Lookup where
  handle : File
  memory : Memory
  codes : List (Except Stop Int)

def opened (memory : Memory) : Lookup := ⟨(fat32OpenRoot fs).2, memory, []⟩

/-- One name, with the handle found last as the directory and as the output. -/
def lookUp (state : Lookup) (name : Name83) : Lookup :=
  match fat32Find (deliverSectors disk) fs sector buf fuel state.handle name state.memory with
  | .ok (code, out, memory) => ⟨out.getD state.handle, memory, state.codes ++ [.ok code]⟩
  | .error stop => ⟨state.handle, state.memory, state.codes ++ [.error stop]⟩

/-- What a handle for a place of the tree gives: finds that succeed where the
tree has an entry, and the bytes of a file. -/
structure Represents (spot : Spot Name83 (List Byte)) (handle : File) : Prop where
  kind : handle.isDir = spot.isDir
  finds : ∀ name, Sound disk fs handle name → ∀ memory,
    (fat32Find (deliverSectors disk) fs sector buf fuel handle name memory).map Prod.fst =
      .ok (findCode (spot.step dotName dotdotName name).isSome)
  reads : ∀ content, spot = .file content → ∀ offset size out memory,
    offset + size < 2 ^ 32 → OffBuffers sector buf out size →
    let r := if offset ≥ content.length then 0 else min size (content.length - offset)
    ∃ needed final,
      (∀ rounds, needed ≤ rounds →
        fat32Read (deliverSectors disk) fs sector buf rounds handle offset size out memory =
          .ok (r, final)) ∧
      Copied sector buf memory final out r ((content.drop offset).take r)

structure Agrees (state : Lookup) (walk : Walk Name83 (List Byte)) : Prop where
  codes : state.codes = walk.named.map fun named => .ok (findCode named)
  denotes : Denotes disk fs walk.spot state.handle

variable {disk fs fuel}

theorem denotes_represents (mounted : Mounted disk fs) (positive : 1 ≤ fs.sectorsPerCluster)
    (small : fs.sectorsPerCluster ≤ 8) (enough : 2 ^ 28 ≤ fuel) {spot : Spot Name83 (List Byte)}
    {handle : File} (denotes : Denotes disk fs spot handle) :
    Represents disk fs sector buf fuel spot handle where
  kind := by
    cases spot with
    | file content => exact denotes.1
    | dir here above => exact denotes.1
  finds := by
    intro name sound memory
    have geometry := mounted_small_clusters mounted positive small
    obtain ⟨out, final, returned, _⟩ := find_denotes sector buf geometry enough denotes sound memory
    rw [returned]
    rfl
  reads := by
    rintro content rfl offset size out memory word away
    exact read_kept sector buf mounted positive small denotes.2 offset size out word memory away

theorem look_up_agrees (geometry : SmallClusters fs) (enough : 2 ^ 28 ≤ fuel) (state : Lookup)
    (walk : Walk Name83 (List Byte)) (name : Name83) (agrees : Agrees disk fs state walk)
    (sound : Sound disk fs state.handle name) :
    Agrees disk fs (lookUp disk fs sector buf fuel state name)
      (walk.visit dotName dotdotName name) := by
  obtain ⟨out, final, returned, denotes⟩ :=
    find_denotes sector buf geometry enough agrees.denotes sound state.memory
  unfold lookUp
  rw [returned]
  refine ⟨?_, denotes⟩
  change state.codes ++ _ = (walk.named ++ _).map _
  rw [agrees.codes, List.map_append]
  rfl

theorem opened_agrees {tree : Tree Name83 (List Byte)} (holds : HoldsTree disk fs tree)
    (memory : Memory) : Agrees disk fs (opened fs memory) (Walk.fromRoot tree) :=
  ⟨rfl, rfl, rfl, holds⟩

/-- Names looked up from the root go through the volume as through the tree it
keeps, as long as each find is sound: at every point the codes so far are the
tree's and the handle represents the place reached. -/
theorem navigation_follows_tree (mounted : Mounted disk fs) (positive : 1 ≤ fs.sectorsPerCluster)
    (small : fs.sectorsPerCluster ≤ 8) {tree : Tree Name83 (List Byte)}
    (holds : HoldsTree disk fs tree) (enough : 2 ^ 28 ≤ fuel) (memory : Memory)
    (names : List Name83)
    (sound : EachStep (lookUp disk fs sector buf fuel)
      (fun state name => Sound disk fs state.handle name) (opened fs memory) names) :
    ∀ before, before <+: names →
      let state := run (lookUp disk fs sector buf fuel) (opened fs memory) before
      let walk := run (Walk.visit dotName dotdotName) (Walk.fromRoot tree) before
      state.codes = (walk.named.map fun named => .ok (findCode named)) ∧
        Represents disk fs sector buf fuel walk.spot state.handle := by
  intro before leading
  have geometry := mounted_small_clusters mounted positive small
  have agrees := reached_related (look_up_agrees sector buf geometry enough) (opened fs memory)
    (Walk.fromRoot tree) (opened_agrees holds memory) names sound before leading
  exact ⟨agrees.codes, denotes_represents sector buf mounted positive small enough agrees.denotes⟩

theorem look_up_found (geometry : SmallClusters fs) (enough : 2 ^ 28 ≤ fuel) (state : Lookup)
    {clusters : List Nat} (chain : StoredChain disk fs state.handle.firstCluster clusters)
    {name : Name83} {entry : Record}
    (found : (directoryRecords disk fs clusters).find? (Matches name) = some entry) :
    ∃ final, lookUp disk fs sector buf fuel state name =
      ⟨recordFile entry, final, state.codes ++ [.ok 0]⟩ := by
  obtain ⟨final, returned⟩ := find_returns sector buf geometry enough chain name state.memory
  rw [found] at returned
  refine ⟨final, ?_⟩
  unfold lookUp
  rw [returned]
  rfl

end Walking

section Nested

def subdirName : Name83 :=
  ⟨[0x53, 0x55, 0x42, 0x44, 0x49, 0x52, 0x20, 0x20, 0x20, 0x20, 0x20], rfl⟩

def helloName : Name83 :=
  ⟨[0x48, 0x45, 0x4C, 0x4C, 0x4F, 0x20, 0x20, 0x20, 0x54, 0x58, 0x54], rfl⟩

def hello : List Byte := [72, 101, 108, 108, 111]

def placed (start : Nat) (bytes : List Byte) : List (Nat × Byte) :=
  (List.range' start bytes.length).zip bytes

/-- A boot sector, a table, the root directory with one subdirectory, that
subdirectory with one file, and the file, each in one sector. -/
def nestedDisk : Nat → Byte := fun i =>
  ((placed 0 [0xEB, 0x58, 0x90] ++
    [(12, 2), (13, 1), (14, 1), (16, 1), (32, 5), (36, 1), (44, 2)] ++
    placed 510 [0x55, 0xAA, 0xF8, 0xFF, 0xFF, 0x0F] ++
    placed 516 (List.replicate 4 [0xFF, 0xFF, 0xFF, 0x0F]).flatten ++
    placed 1024 (subdirName.val ++ [0x10]) ++ [(1050, 3)] ++
    placed 1536 (dotName.val ++ [0x10]) ++ [(1562, 3)] ++
    placed 1568 (dotdotName.val ++ [0x10]) ++
    placed 1600 (helloName.val ++ [0x20]) ++ [(1626, 4), (1628, 5)] ++
    placed 2048 hello).lookup i).getD 0

def nestedFs : Fs := mountedFs 0 (diskBpb nestedDisk 0)

def nestedTree : Tree Name83 (List Byte) := .dir subdirName (.file helloName hello .nil) .nil

def subdirEntry : Record := ⟨subdirName, 0x10, 3, 0⟩
def dotEntry : Record := ⟨dotName, 0x10, 3, 0⟩
def dotdotEntry : Record := ⟨dotdotName, 0x10, 0, 0⟩
def helloEntry : Record := ⟨helloName, 0x20, 4, 5⟩

theorem nested_mounted : Mounted nestedDisk nestedFs :=
  mount_delivered nestedDisk 0x500000 0 (fun _ => 0) (by decide +kernel) (by decide +kernel)

theorem nested_geometry : SmallClusters nestedFs :=
  mounted_small_clusters nested_mounted (by decide +kernel) (by decide +kernel)

theorem nested_chain {cluster : Nat} (data : 2 ≤ cluster ∧ cluster ≤ 4) :
    StoredChain nestedDisk nestedFs cluster [cluster] := by
  have link : ∀ other, other < 5 → 2 ≤ other →
      NoWrap nestedFs other ∧ fatEoc ≤ storedLink nestedDisk nestedFs other := by
    unfold NoWrap
    decide +kernel
  obtain ⟨noWrap, marked⟩ := link cluster (by omega) data.1
  exact ⟨rfl, data.1, Nat.lt_of_le_of_lt data.2 (by decide), noWrap, marked⟩

theorem nested_root_records :
    directoryRecords nestedDisk nestedFs [2] = [subdirEntry] := by decide +kernel

theorem nested_subdir_records :
    directoryRecords nestedDisk nestedFs [3] = [dotEntry, dotdotEntry, helloEntry] := by
  decide +kernel

theorem nested_holds : HoldsTree nestedDisk nestedFs nestedTree := by
  have root : liveRecords nestedDisk nestedFs [2] = [subdirEntry] := by
    rw [liveRecords, nested_root_records]
    rfl
  have subdir : liveRecords nestedDisk nestedFs [3] = [dotEntry, dotdotEntry, helloEntry] := by
    rw [liveRecords, nested_subdir_records]
    rfl
  have directory : ∀ name first, IsDirectory ⟨name, 0x10, first, 0⟩ := fun _ _ =>
    show 0x10 &&& 0x10 ≠ 0 by decide
  have begins : Subdirectory nestedDisk nestedFs 0 3 [3] [helloEntry] :=
    ⟨nested_chain (by decide), _, _, subdir, ⟨rfl, directory _ _, rfl⟩, ⟨rfl, directory _ _, rfl⟩⟩
  have file : KeepsFile nestedDisk nestedFs 4 5 hello :=
    Or.inr ⟨[4], nested_chain (by decide), by decide +kernel, by decide +kernel⟩
  have plain : ¬ IsDirectory helloEntry := not_not_intro (by decide)
  refine ⟨[2], nested_chain (by decide), ?_⟩
  rw [root]
  exact ⟨rfl, ⟨directory _ _, [3], _, begins, rfl, ⟨plain, file⟩, trivial⟩, trivial⟩

/-- A cluster number of zero leads to the sectors before the first cluster,
here to the boot sector. -/
theorem nested_zero_search :
    searchFrom nestedDisk nestedFs subdirName 1 0 = .ok (-1, none) := by decide +kernel

section Finds

variable (sector buf : Nat) {fuel : Nat} (enough : 2 ^ 28 ≤ fuel) (memory : Memory)
  (codes : List (Except Stop Int))

include enough

theorem nested_enters : ∃ final,
    lookUp nestedDisk nestedFs sector buf fuel (opened nestedFs memory) subdirName =
      ⟨recordFile subdirEntry, final, [.ok 0]⟩ := by
  have found : (directoryRecords nestedDisk nestedFs [2]).find? (Matches subdirName) =
      some subdirEntry := by
    rw [nested_root_records]
    rfl
  exact look_up_found sector buf nested_geometry enough _ (@nested_chain 2 (by decide)) found

theorem nested_inside (name : Name83) {entry : Record}
    (found : [dotEntry, dotdotEntry, helloEntry].find? (Matches name) = some entry) : ∃ final,
    lookUp nestedDisk nestedFs sector buf fuel ⟨recordFile subdirEntry, memory, codes⟩ name =
      ⟨recordFile entry, final, codes ++ [.ok 0]⟩ := by
  rw [← nested_subdir_records] at found
  exact look_up_found sector buf nested_geometry enough _ (@nested_chain 3 (by decide)) found

theorem nested_misses : ∃ final,
    lookUp nestedDisk nestedFs sector buf fuel ⟨recordFile dotdotEntry, memory, codes⟩ subdirName =
      ⟨recordFile dotdotEntry, final, codes ++ [.ok (-1)]⟩ := by
  have ended := @find_from_search nestedDisk nestedFs subdirName nested_geometry.bytes
    nested_geometry.small sector buf fuel 0 memory
  rw [search_more nested_zero_search (by omega)] at ended
  obtain ⟨final, returned⟩ := find_of_map ended
  refine ⟨final, ?_⟩
  unfold lookUp fat32Find
  change (match findFrom (deliverSectors nestedDisk) nestedFs sector buf subdirName fuel 0 memory
    with | .ok (code, out, memory) => _ | .error stop => _) = _
  rw [returned]
  rfl

end Finds

/-- Into the subdirectory, at its own entry, and to its file. -/
theorem navigation_follows_tree_nested :
    (run (lookUp nestedDisk nestedFs 0x300000 0x400000 (2 ^ 28)) (opened nestedFs fun _ => 0)
        [subdirName, dotName, helloName]).codes = [.ok 0, .ok 0, .ok 0] ∧
      Represents nestedDisk nestedFs 0x300000 0x400000 (2 ^ 28) (.file hello)
        (run (lookUp nestedDisk nestedFs 0x300000 0x400000 (2 ^ 28)) (opened nestedFs fun _ => 0)
          [subdirName, dotName, helloName]).handle := by
  obtain ⟨inside, entered⟩ := nested_enters 0x300000 0x400000 (Nat.le_refl _) (fun _ => 0)
  obtain ⟨still, stayed⟩ := nested_inside 0x300000 0x400000 (Nat.le_refl _) inside [.ok 0]
    dotName (show _ = some dotEntry from rfl)
  have root : Sound nestedDisk nestedFs (opened nestedFs fun _ => 0).handle subdirName := by
    refine ⟨[2], nested_chain (by decide), ?_⟩
    rw [nested_root_records]
    intro entry found
    cases found
    exact ⟨rfl, by decide, fun _ => by decide⟩
  have subdir : ∀ name ∈ [dotName, helloName],
      Sound nestedDisk nestedFs (recordFile subdirEntry) name := by
    intro name member
    refine ⟨[3], nested_chain (by decide), ?_⟩
    rw [nested_subdir_records]
    intro entry found
    rcases List.mem_pair.mp member with rfl | rfl
    · cases found
      exact ⟨rfl, by decide, fun _ => by decide⟩
    · cases found
      exact ⟨rfl, by decide, fun _ => by decide⟩
  have sound : EachStep (lookUp nestedDisk nestedFs 0x300000 0x400000 (2 ^ 28))
      (fun state name => Sound nestedDisk nestedFs state.handle name) (opened nestedFs fun _ => 0)
      [subdirName, dotName, helloName] := by
    refine ⟨root, ?_, ?_, trivial⟩
    · rw [entered]
      exact subdir dotName (by decide)
    · rw [entered, stayed]
      exact subdir helloName (by decide)
  exact navigation_follows_tree 0x300000 0x400000 nested_mounted nested_geometry.positive
    nested_geometry.small nested_holds (Nat.le_refl _) (fun _ => 0)
    [subdirName, dotName, helloName] sound [subdirName, dotName, helloName] List.prefix_rfl

/-- Into the subdirectory, back to the root and in again: the last find fails
in the volume, which keeps a tree where it names an entry. -/
theorem root_lost_on_the_way_back :
    Mounted nestedDisk nestedFs ∧ SmallClusters nestedFs ∧
      HoldsTree nestedDisk nestedFs nestedTree ∧
      (run (Walk.visit dotName dotdotName) (Walk.fromRoot nestedTree)
        [subdirName, dotdotName, subdirName]).named = [true, true, true] ∧
      ∀ sector buf fuel memory, 2 ^ 28 ≤ fuel →
        (run (lookUp nestedDisk nestedFs sector buf fuel) (opened nestedFs memory)
          [subdirName, dotdotName, subdirName]).codes = [.ok 0, .ok 0, .ok (-1)] := by
  refine ⟨nested_mounted, nested_geometry, nested_holds, by decide, ?_⟩
  intro sector buf fuel memory enough
  obtain ⟨inside, entered⟩ := nested_enters sector buf enough memory
  obtain ⟨outside, left⟩ := nested_inside sector buf enough inside [.ok 0]
    dotdotName (show _ = some dotdotEntry from rfl)
  obtain ⟨final, missed⟩ := nested_misses sector buf enough outside [.ok 0, .ok 0]
  rw [run_cons, entered, run_cons, left, run_cons]
  change (run _ (lookUp _ _ _ _ _ ⟨_, _, [.ok 0, .ok 0]⟩ _) []).codes = _
  rw [missed]
  rfl

end Nested

end LumenOS.Fat32Navigation
