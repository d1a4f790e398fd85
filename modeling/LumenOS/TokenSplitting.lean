import Mathlib.Data.List.Basic

/-!
# Splitting a text into tokens

Tokens are taken one at a time from a place in the text on, each request with
delimiters of its own. Where the delimiters never change, the tokens taken are
the maximal stretches without delimiters, in order and each of them once.
-/

namespace LumenOS.TokenSplitting

set_option autoImplicit false

variable {Symbol : Type*}

/-- The first stretch without delimiters that is not before the given place,
by its start and its length. -/
structure FirstToken (delimiter : Symbol → Prop) (text : List Symbol)
    (place start length : Nat) : Prop where
  behind : place ≤ start
  skipped : ∀ i c, place ≤ i → i < start → text[i]? = some c → delimiter c
  nonempty : 0 < length
  inside : start + length ≤ text.length
  free : ∀ i c, start ≤ i → i < start + length → text[i]? = some c → ¬ delimiter c
  ends : ∀ c, text[start + length]? = some c → delimiter c

/-- A stretch without delimiters that cannot be made longer on either side. -/
structure MaximalToken (delimiter : Symbol → Prop) (text : List Symbol)
    (start length : Nat) : Prop where
  nonempty : 0 < length
  inside : start + length ≤ text.length
  begins : ∀ i c, i + 1 = start → text[i]? = some c → delimiter c
  free : ∀ i c, start ≤ i → i < start + length → text[i]? = some c → ¬ delimiter c
  ends : ∀ c, text[start + length]? = some c → delimiter c

/-- The tokens that a sequence of requests takes, each with its delimiters.
The symbol behind a token is used up with it; once there is no token left, later
requests find none either. -/
inductive Splits (text : List Symbol) :
    Nat → List (Symbol → Prop) → List (Nat × Nat) → Prop where
  | unasked (place : Nat) : Splits text place [] []
  | exhausted (place : Nat) (delimiter : Symbol → Prop) (later : List (Symbol → Prop))
      (rest : ∀ i c, place ≤ i → text[i]? = some c → delimiter c) :
      Splits text place (delimiter :: later) []
  | token (place : Nat) (delimiter : Symbol → Prop) (later : List (Symbol → Prop))
      (start length : Nat) (found : List (Nat × Nat))
      (first : FirstToken delimiter text place start length)
      (more : Splits text (start + length + 1) later found) :
      Splits text place (delimiter :: later) ((start, length) :: found)

section Requests

variable {text : List Symbol} {place : Nat} {requests : List (Symbol → Prop)}
  {found : List (Nat × Nat)}

theorem splits_spent (splits : Splits text place requests found) (spent : text.length ≤ place) :
    found = [] := by
  cases splits with
  | unasked place => rfl
  | exhausted place delimiter later rest => rfl
  | token place delimiter later start length found first more =>
      have behind := first.behind
      have inside := first.inside
      have nonempty := first.nonempty
      omega

theorem splits_behind (splits : Splits text place requests found) :
    ∀ span ∈ found, place ≤ span.1 := by
  induction splits with
  | unasked place => exact List.forall_mem_nil _
  | exhausted place delimiter later rest => exact List.forall_mem_nil _
  | token place delimiter later start length found first more ih =>
      refine List.forall_mem_cons.mpr ⟨first.behind, ?_⟩
      intro span member
      have further := ih span member
      have behind := first.behind
      omega

theorem splits_ordered (splits : Splits text place requests found) :
    found.Pairwise fun earlier later => earlier.1 + earlier.2 < later.1 := by
  induction splits with
  | unasked place => exact List.Pairwise.nil
  | exhausted place delimiter later rest => exact List.Pairwise.nil
  | token place delimiter later start length found first more ih =>
      exact List.pairwise_cons.mpr ⟨fun span member => splits_behind more span member, ih⟩

theorem splits_inside (splits : Splits text place requests found) :
    ∀ span ∈ found, span.1 + span.2 ≤ text.length := by
  induction splits with
  | unasked place => exact List.forall_mem_nil _
  | exhausted place delimiter later rest => exact List.forall_mem_nil _
  | token place delimiter later start length found first more ih =>
      exact List.forall_mem_cons.mpr ⟨first.inside, ih⟩

end Requests

section SameDelimiters

variable {delimiter : Symbol → Prop} {text : List Symbol}

theorem first_token_maximal {place start length : Nat}
    (boundary : ∀ i c, i + 1 = place → text[i]? = some c → delimiter c)
    (first : FirstToken delimiter text place start length) :
    MaximalToken delimiter text start length := by
  refine ⟨first.nonempty, first.inside, ?_, first.free, first.ends⟩
  intro i c before symbol
  have behind := first.behind
  by_cases at_place : i + 1 = place
  · exact boundary i c at_place symbol
  · exact first.skipped i c (by omega) (by omega) symbol

theorem maximal_not_before_first {place start length other size : Nat}
    (first : FirstToken delimiter text place start length)
    (maximal : MaximalToken delimiter text other size) (behind : place ≤ other) :
    (other = start ∧ size = length) ∨ start + length < other := by
  have symbolAt : ∀ i, i < text.length → ∃ c, text[i]? = some c := fun i bound =>
    ⟨_, List.getElem?_eq_getElem bound⟩
  have inside := maximal.inside
  have nonempty := maximal.nonempty
  have firstInside := first.inside
  obtain ⟨c, symbol⟩ := symbolAt other (by omega)
  have free := maximal.free other c (Nat.le_refl _) (by omega) symbol
  by_cases before : other < start
  · exact absurd (first.skipped other c behind before symbol) free
  by_cases same : other = start
  · subst same
    rcases Nat.lt_trichotomy size length with shorter | equal | longer
    · obtain ⟨d, next⟩ := symbolAt (other + size) (by omega)
      exact absurd (maximal.ends d next) (first.free _ d (by omega) (by omega) next)
    · exact .inl ⟨rfl, equal⟩
    · obtain ⟨d, next⟩ := symbolAt (other + length) (by omega)
      exact absurd (first.ends d next) (maximal.free _ d (by omega) (by omega) next)
  by_cases within : other < start + length
  · obtain ⟨d, previous⟩ := symbolAt (other - 1) (by omega)
    have delimits := maximal.begins (other - 1) d (by omega) previous
    exact absurd delimits (first.free _ d (by omega) (by omega) previous)
  by_cases adjacent : other = start + length
  · subst adjacent
    exact absurd (first.ends c symbol) free
  · exact .inr (by omega)

variable {place : Nat} {requests : List (Symbol → Prop)} {found : List (Nat × Nat)}

theorem splits_maximal (splits : Splits text place requests found)
    (same : ∀ request ∈ requests, request = delimiter)
    (boundary : ∀ i c, i + 1 = place → text[i]? = some c → delimiter c) :
    ∀ span ∈ found, MaximalToken delimiter text span.1 span.2 := by
  induction splits with
  | unasked place => exact List.forall_mem_nil _
  | exhausted place request later rest => exact List.forall_mem_nil _
  | token place request later start length found first more ih =>
      obtain ⟨rfl, sameLater⟩ := List.forall_mem_cons.mp same
      refine List.forall_mem_cons.mpr ⟨first_token_maximal boundary first, ih sameLater ?_⟩
      intro i c last symbol
      obtain rfl : i = start + length := by omega
      exact first.ends c symbol

/-- Every maximal token is taken, unless the requests run out before it. -/
theorem splits_complete (splits : Splits text place requests found)
    (same : ∀ request ∈ requests, request = delimiter) {start length : Nat}
    (maximal : MaximalToken delimiter text start length) (behind : place ≤ start) :
    (start, length) ∈ found ∨
      (found.length = requests.length ∧ ∀ span ∈ found, span.1 + span.2 < start) := by
  induction splits with
  | unasked place => exact .inr ⟨rfl, List.forall_mem_nil _⟩
  | exhausted place request later rest =>
      obtain ⟨rfl, -⟩ := List.forall_mem_cons.mp same
      have inside := maximal.inside
      have nonempty := maximal.nonempty
      have symbol := List.getElem?_eq_getElem (show start < text.length by omega)
      exact absurd (rest _ _ behind symbol)
        (maximal.free _ _ (Nat.le_refl _) (by omega) symbol)
  | token place request later firstStart firstLength found first more ih =>
      obtain ⟨rfl, sameLater⟩ := List.forall_mem_cons.mp same
      rcases maximal_not_before_first first maximal behind with ⟨rfl, rfl⟩ | further
      · exact .inl List.mem_cons_self
      · rcases ih sameLater further with member | ⟨all, before⟩
        · exact .inl (List.mem_cons_of_mem _ member)
        · exact .inr ⟨congrArg (· + 1) all, List.forall_mem_cons.mpr ⟨further, before⟩⟩

/-- The tokens that a number of requests with the same delimiters ought to
take: maximal ones only, in order, and all of them before the requests run out. -/
structure AllTokens (delimiter : Symbol → Prop) (text : List Symbol) (count : Nat)
    (found : List (Nat × Nat)) : Prop where
  maximal : ∀ span ∈ found, MaximalToken delimiter text span.1 span.2
  ordered : found.Pairwise fun earlier later => earlier.1 + earlier.2 < later.1
  complete : ∀ start length, MaximalToken delimiter text start length →
    (start, length) ∈ found ∨
      (found.length = count ∧ ∀ span ∈ found, span.1 + span.2 < start)

theorem splits_all_tokens (splits : Splits text 0 requests found)
    (same : ∀ request ∈ requests, request = delimiter) :
    AllTokens delimiter text requests.length found where
  maximal := splits_maximal splits same fun _ _ impossible => absurd impossible (by omega)
  ordered := splits_ordered splits
  complete := fun _ _ maximal => splits_complete splits same maximal (Nat.zero_le _)

theorem ordered_apart
    (ordered : found.Pairwise fun earlier later => earlier.1 + earlier.2 < later.1)
    {one other : Nat × Nat} (member : one ∈ found) (memberOther : other ∈ found) :
    one = other ∨ one.1 + one.2 < other.1 ∨ other.1 + other.2 < one.1 := by
  induction ordered with
  | nil => cases member
  | cons before _ ih =>
      rcases List.mem_cons.mp member with rfl | later
      · rcases List.mem_cons.mp memberOther with rfl | laterOther
        · exact .inl rfl
        · exact .inr (.inl (before _ laterOther))
      · rcases List.mem_cons.mp memberOther with rfl | laterOther
        · exact .inr (.inr (before _ later))
        · exact ih later laterOther

end SameDelimiters

end LumenOS.TokenSplitting
