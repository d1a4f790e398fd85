import LumenOS.Fat32Trace
import Mathlib.Algebra.GroupWithZero.Nat
import Mathlib.Logic.Function.Iterate

/-!
# Which clusters a read visits

With every sector delivered, the clusters `fat32_read` follows, the words it
consults and the bytes it copies are fixed by the links on the disk and by two
numbers. Its two loops walk along one sequence of clusters; only the second
stops at an end mark.
-/

namespace LumenOS.Fat32Rounds

open LumenOS.ByteMemory LumenOS.StringModel LumenOS.Fat32Model LumenOS.Fat32Delivery
open LumenOS.Fat32Slice LumenOS.Fat32Trace

set_option autoImplicit false

section Walk

variable (disk : Nat → Byte) (fs : Fs)

def follow (first steps : Nat) : Nat := (diskLink disk fs)^[steps] first

theorem follow_succ (first steps : Nat) :
    follow disk fs first (steps + 1) = follow disk fs (diskLink disk fs first) steps := rfl

theorem follow_add (first skip steps : Nat) :
    follow disk fs (follow disk fs first skip) steps = follow disk fs first (skip + steps) := by
  unfold follow
  rw [← Function.iterate_add_apply, Nat.add_comm]

structure Round where
  cluster : Nat
  off : Nat
  count : Nat
  deriving DecidableEq

/-- The rounds of the copying loop, from an offset inside the first cluster on. -/
def rounds : Nat → Nat → Nat → Nat → List Round
  | 0, _, _, _ => []
  | fuel + 1, cl, off, remaining =>
      if remaining ≠ 0 ∧ cl < fatEoc then
        let count := min remaining (fs.sectorsPerCluster * 512 - off)
        ⟨cl, off, count⟩ :: rounds fuel (diskLink disk fs cl) 0 (remaining - count)
      else []

def Round.bytes (round : Round) : List Byte :=
  ((clusterBytes disk fs round.cluster).drop round.off).take round.count

def counts (rounds : List Round) : Nat := (rounds.map Round.count).sum

def spread : Nat → List Round → List (Nat × Nat × Nat)
  | _, [] => []
  | dst, round :: later =>
      (round.cluster, dst, round.count) :: spread (dst + round.count) later

@[simp] theorem counts_nil : counts [] = 0 := rfl

@[simp] theorem counts_cons (round : Round) (later : List Round) :
    counts (round :: later) = round.count + counts later := rfl

variable {disk fs}

/-- Up to one link more there is no end mark: here, and from the next cluster on. -/
theorem below_succ_iff (cl steps : Nat) :
    (∀ i, i ≤ steps + 1 → follow disk fs cl i < fatEoc) ↔
      cl < fatEoc ∧ ∀ i, i ≤ steps → follow disk fs (diskLink disk fs cl) i < fatEoc := by
  constructor
  · intro below
    refine ⟨below 0 (Nat.zero_le _), ?_⟩
    intro i bound
    rw [← follow_succ]
    exact below (i + 1) (by omega)
  · rintro ⟨data, below⟩ i bound
    cases i with
    | zero => exact data
    | succ i =>
        rw [follow_succ]
        exact below i (by omega)

theorem below_from_iff (first start steps : Nat) :
    (∀ i, i ≤ steps → follow disk fs (follow disk fs first start) i < fatEoc) ↔
      ∀ i, start ≤ i → i ≤ start + steps → follow disk fs first i < fatEoc := by
  constructor
  · intro below i above upTo
    have reached := below (i - start) (by omega)
    rwa [follow_add, Nat.add_sub_cancel' above] at reached
  · intro below i bound
    rw [follow_add]
    exact below (start + i) (by omega) (by omega)

theorem rounds_done {cl remaining : Nat} (stops : ¬ (remaining ≠ 0 ∧ cl < fatEoc))
    (fuel off : Nat) : rounds disk fs fuel cl off remaining = [] := by
  cases fuel with
  | zero => rfl
  | succ fuel => exact if_neg stops

theorem counts_round {cl remaining : Nat} (nonzero : remaining ≠ 0) (data : cl < fatEoc)
    (fuel off : Nat) :
    counts (rounds disk fs (fuel + 1) cl off remaining) =
      min remaining (fs.sectorsPerCluster * 512 - off) +
        counts (rounds disk fs fuel (diskLink disk fs cl) 0
          (remaining - min remaining (fs.sectorsPerCluster * 512 - off))) := by
  rw [rounds, if_pos ⟨nonzero, data⟩]
  rfl

theorem counts_le (fuel cl off remaining : Nat) :
    counts (rounds disk fs fuel cl off remaining) ≤ remaining := by
  induction fuel generalizing cl off remaining with
  | zero => exact Nat.zero_le remaining
  | succ fuel ih =>
      by_cases more : remaining ≠ 0 ∧ cl < fatEoc
      · have later := ih (diskLink disk fs cl) 0
          (remaining - min remaining (fs.sectorsPerCluster * 512 - off))
        rw [counts_round more.1 more.2]
        omega
      · rw [rounds_done more]
        exact Nat.zero_le remaining

theorem next_cluster_place {off limit whole : Nat} (inside : off < whole)
    (beyond : whole - off ≤ limit) :
    (off + limit) / whole = (limit - (whole - off)) / whole + 1 := by
  rw [← Nat.add_div_right _ (by omega)]
  congr 1
  omega

/-- More than `limit` bytes are copied exactly when more are asked for and no
end mark stands before the cluster that holds the next one. -/
theorem counts_more_iff (positive : 1 ≤ fs.sectorsPerCluster) {fuel cl off remaining : Nat}
    (inside : off < fs.sectorsPerCluster * 512) (enough : remaining < fuel) (limit : Nat) :
    limit < counts (rounds disk fs fuel cl off remaining) ↔
      limit < remaining ∧ ∀ i, i ≤ (off + limit) / (fs.sectorsPerCluster * 512) →
        follow disk fs cl i < fatEoc := by
  induction fuel generalizing cl off remaining limit with
  | zero => omega
  | succ fuel ih =>
      by_cases goes : remaining ≠ 0 ∧ cl < fatEoc
      · obtain ⟨nonzero, data⟩ := goes
        rw [counts_round nonzero data]
        by_cases first : limit < fs.sectorsPerCluster * 512 - off
        · have fewer := @counts_le disk fs fuel (diskLink disk fs cl) 0
            (remaining - min remaining (fs.sectorsPerCluster * 512 - off))
          have place : (off + limit) / (fs.sectorsPerCluster * 512) = 0 :=
            Nat.div_eq_of_lt (by omega)
          rw [place]
          constructor
          · intro more
            refine ⟨by omega, ?_⟩
            intro i bound
            obtain rfl : i = 0 := Nat.le_zero.mp bound
            exact data
          · rintro ⟨less, _⟩
            omega
        · -- the rest of this cluster goes first, and the count goes on behind it
          have later := @ih (diskLink disk fs cl) 0
            (remaining - min remaining (fs.sectorsPerCluster * 512 - off)) (by omega) (by omega)
            (limit - (fs.sectorsPerCluster * 512 - off))
          rw [Nat.zero_add] at later
          rw [next_cluster_place inside (by omega), below_succ_iff]
          constructor
          · intro more
            obtain ⟨less, below⟩ := later.mp (by omega)
            exact ⟨by omega, data, below⟩
          · rintro ⟨less, _, below⟩
            have rest := later.mpr ⟨by omega, below⟩
            omega
      · rw [rounds_done goes, counts_nil]
        constructor
        · intro impossible
          omega
        · rintro ⟨less, below⟩
          exact absurd ⟨Nat.ne_zero_of_lt less, below 0 (Nat.zero_le _)⟩ goes

/-- A cluster is copied from exactly when it holds a byte asked for and no end
mark stands up to it. -/
theorem mem_rounds_iff (positive : 1 ≤ fs.sectorsPerCluster) {fuel cl off remaining : Nat}
    (inside : off < fs.sectorsPerCluster * 512) (enough : remaining < fuel) (cluster : Nat) :
    cluster ∈ (rounds disk fs fuel cl off remaining).map Round.cluster ↔
      remaining ≠ 0 ∧ ∃ i, cluster = follow disk fs cl i ∧
        i * (fs.sectorsPerCluster * 512) < off + remaining ∧
        ∀ h, h ≤ i → follow disk fs cl h < fatEoc := by
  induction fuel generalizing cl off remaining with
  | zero => omega
  | succ fuel ih =>
      rw [rounds]
      by_cases goes : remaining ≠ 0 ∧ cl < fatEoc
      · obtain ⟨nonzero, data⟩ := goes
        rw [if_pos ⟨nonzero, data⟩]
        dsimp only
        rw [List.map_cons, List.mem_cons,
          @ih (diskLink disk fs cl) 0 _ (by omega) (by omega)]
        constructor
        · rintro (here | ⟨left, i, reached, place, below⟩)
          · refine ⟨nonzero, 0, here, by omega, ?_⟩
            intro h bound
            obtain rfl : h = 0 := Nat.le_zero.mp bound
            exact data
          · refine ⟨nonzero, i + 1, reached, ?_, (below_succ_iff cl i).mpr ⟨data, below⟩⟩
            rw [Nat.succ_mul]
            omega
        · rintro ⟨_, i, reached, place, below⟩
          cases i with
          | zero => exact Or.inl reached
          | succ i =>
              right
              rw [Nat.succ_mul] at place
              exact ⟨by omega, i, reached, by omega, ((below_succ_iff cl i).mp below).2⟩
      · rw [if_neg goes]
        constructor
        · intro impossible
          cases impossible
        · rintro ⟨nonzero, i, _, _, below⟩
          exact absurd ⟨nonzero, below 0 (Nat.zero_le i)⟩ goes

end Walk

section Delivered

variable {disk : Nat → Byte} {fs : Fs} (sector buf : Nat)

theorem skip_delivered (skip cl : Nat) (memory : Memory) :
    links (skipClustersLogged (deliverSectors disk) fs sector skip cl memory).1 =
        (List.range skip).map (follow disk fs cl) ∧
      copies (skipClustersLogged (deliverSectors disk) fs sector skip cl memory).1 = [] ∧
      (skipClustersLogged (deliverSectors disk) fs sector skip cl memory).2.1 =
        follow disk fs cl skip ∧
      ∀ address, Outside address sector 512 →
        readByte (skipClustersLogged (deliverSectors disk) fs sector skip cl memory).2.2 address =
          readByte memory address := by
  induction skip generalizing cl memory with
  | zero => exact ⟨rfl, rfl, rfl, fun _ _ => rfl⟩
  | succ skip ih =>
      have linked : (fatNext (deliverSectors disk) fs sector cl memory).1 =
          diskLink disk fs cl := by
        rw [fat_next_delivered]
      have later := ih (diskLink disk fs cl)
        (fatNext (deliverSectors disk) fs sector cl memory).2
      rw [skipClustersLogged]
      dsimp only
      rw [linked]
      obtain ⟨consulted, copied, stopped, frame⟩ := later
      refine ⟨?_, ?_, stopped, ?_⟩
      · rw [links_append, links_next, consulted, List.range_succ_eq_map, List.map_cons,
          List.map_map]
        rfl
      · rw [copies_append, copies_next, copied]
        rfl
      · intro address outside
        exact (frame address outside).trans
          (fat_next_outside disk fs sector cl address memory outside)

structure Makes (disk : Nat → Byte) (fs : Fs) (sector buf cl off dst remaining : Nat)
    (memory : Memory) (made : List Round) (events : List Event) (final : Memory) : Prop where
  runs : ∀ fuel, remaining < fuel →
    readFromLogged (deliverSectors disk) fs sector buf fuel cl off dst remaining memory =
      (events, .ok (remaining - counts made, final))
  consulted : links events = made.map Round.cluster
  copied : copies events = spread dst made
  moved : remaining < 2 ^ 32 → OffBuffers sector buf dst remaining →
    Copied sector buf memory final dst (counts made) (made.flatMap (Round.bytes disk fs))

theorem makes_nothing {cl off dst remaining : Nat} (stops : ¬ (remaining ≠ 0 ∧ cl < fatEoc))
    (memory : Memory) : Makes disk fs sector buf cl off dst remaining memory [] [] memory := by
  constructor
  · intro fuel more
    obtain ⟨fuel, rfl⟩ := Nat.exists_eq_succ_of_ne_zero (Nat.ne_zero_of_lt more)
    rw [readFromLogged, if_neg stops]
    rfl
  · rfl
  · rfl
  · intro word away
    exact ⟨rfl, fun _ _ _ _ => rfl⟩

def roundMemory (disk : Nat → Byte) (fs : Fs) (sector buf cl off dst count : Nat)
    (memory : Memory) : Memory :=
  (fatNext (deliverSectors disk) fs sector cl
    (memcpy (deliverSectors disk (clusterToLba fs cl) fs.sectorsPerCluster buf memory).2
      dst (buf + off) count)).2

theorem makes_round (small : SmallClusters fs) {cl off dst count remaining : Nat}
    {memory final : Memory} {made : List Round} {events : List Event}
    (goes : remaining ≠ 0 ∧ cl < fatEoc) (inside : off < fs.sectorsPerCluster * 512)
    (counted : count = min remaining (fs.sectorsPerCluster * 512 - off))
    (fewer : counts made ≤ remaining - count)
    (rest : Makes disk fs sector buf (diskLink disk fs cl) 0 (dst + count) (remaining - count)
      (roundMemory disk fs sector buf cl off dst count memory) made events final) :
    Makes disk fs sector buf cl off dst remaining memory (⟨cl, off, count⟩ :: made)
      (loading (deliverSectors disk) (clusterToLba fs cl) fs.sectorsPerCluster buf memory ::
        .copy cl off dst count :: fatNextEvents (deliverSectors disk) fs sector cl
          (memcpy (deliverSectors disk (clusterToLba fs cl) fs.sectorsPerCluster buf memory).2
            dst (buf + off) count) ++ events) final := by
  have positive := small.positive
  have limit := small.small
  constructor
  · intro fuel more
    obtain ⟨fuel, rfl⟩ := Nat.exists_eq_succ_of_ne_zero (Nat.ne_zero_of_lt more)
    have linked : ∀ memory, (fatNext (deliverSectors disk) fs sector cl memory).1 =
        diskLink disk fs cl := by
      intro memory
      rw [fat_next_delivered]
    have later := rest.runs fuel (by omega)
    rw [roundMemory] at later
    rw [readFromLogged, if_pos goes]
    dsimp only
    rw [round_count small inside, ← counted, linked, later, counts_cons, Nat.sub_sub]
  · rw [links_append, rest.consulted]
    rfl
  · rw [copies_append, rest.copied]
    rfl
  · intro word away
    have first := round_copied sector buf disk small cl (clusterToLba fs cl) off dst count
      memory (by omega) (off_buffers_part away 0 count (by omega))
    have later := rest.moved (by omega) (off_buffers_part away count (remaining - count) (by omega))
    rw [counts_cons, List.flatMap_cons]
    dsimp only
    exact copied_append sector buf (by omega)
      (off_buffers_part away 0 (count + counts made) (by omega)) first later

theorem read_delivered (small : SmallClusters fs) (bound cl off dst remaining : Nat)
    (memory : Memory) (inside : off < fs.sectorsPerCluster * 512) (enough : remaining < bound) :
    ∃ events final, Makes disk fs sector buf cl off dst remaining memory
      (rounds disk fs bound cl off remaining) events final := by
  induction bound generalizing cl off dst remaining memory with
  | zero => omega
  | succ bound ih =>
      have positive := small.positive
      rw [rounds]
      by_cases goes : remaining ≠ 0 ∧ cl < fatEoc
      · obtain ⟨events, final, rest⟩ := ih (diskLink disk fs cl) 0
          (dst + min remaining (fs.sectorsPerCluster * 512 - off))
          (remaining - min remaining (fs.sectorsPerCluster * 512 - off))
          (roundMemory disk fs sector buf cl off dst
            (min remaining (fs.sectorsPerCluster * 512 - off)) memory) (by omega) (by omega)
        rw [if_pos goes]
        exact ⟨_, final, makes_round sector buf small goes inside rfl (counts_le _ _ _ _) rest⟩
      · rw [if_neg goes]
        exact ⟨[], memory, makes_nothing sector buf goes memory⟩

end Delivered

end LumenOS.Fat32Rounds
